import Mathlib.Algebra.Order.Floor.Div
import Mathlib.Data.Int.GCD
import Mathlib.Order.Nat
import Mathlib.Tactic.Ring
import BringUp.Proofs.Machine.Deadline
import BringUp.Proofs.Machine.Delay

/-!
# Waits that the clock can end

A wait with a limit whose test always fails, and a watched delay, on a clock that moves by a fixed
step at each reading and wraps. Both read the clock once to begin with and then once for each
comparison, so comparison `n` sees `n` steps, whatever the counter started from, and the first one
that `Shows` the limit ends the wait.

Wrapping decides whether there is such a comparison. What `n` steps come to in the word are the
multiples of the greatest common divisor of the step and the size of the word, and the largest of
them is that divisor short of the size. A wait whose limit is larger never returns: however patient
the watchdog is, it has to stop it (`Returns`).
-/

namespace BringUp

/-! ### What the steps come to -/

/-- Some multiple of a number is, modulo another one, their greatest common divisor short of it. -/
theorem exists_mul_mod_eq_sub_gcd (step : Nat) {size : Nat} (hsize : 0 < size) :
    ∃ n, 1 ≤ n ∧ n * step % size = size - Nat.gcd step size := by
  have hpos : 0 < Nat.gcd step size := Nat.gcd_pos_of_pos_right step hsize
  rcases Nat.lt_or_eq_of_le (Nat.gcd_le_right step hsize) with hlt | heq
  · obtain ⟨k, -, hk⟩ := Nat.exists_mul_mod_eq_gcd hlt
    -- so many steps give the divisor, and `size - 1` times as many give what is missing to `size`
    have hsum : size ∣ k * (size - 1) * step % size + step * k % size := by
      have hall : k * (size - 1) * step + step * k = step * k * size := by
        obtain ⟨p, rfl⟩ : ∃ p, size = p + 1 := ⟨size - 1, by omega⟩
        rw [Nat.add_sub_cancel]
        ring
      rw [Nat.dvd_iff_mod_eq_zero, ← Nat.add_mod, hall, Nat.mul_mod_left]
    rw [hk] at hsum
    have hmod := Nat.mod_lt (k * (size - 1) * step) hsize
    have hone : k * (size - 1) * step % size + Nat.gcd step size = size :=
      Nat.eq_of_dvd_of_lt_two_mul (by omega) hsum (by omega)
    refine ⟨k * (size - 1), Nat.pos_of_ne_zero fun h0 ↦ ?_, by omega⟩
    rw [h0, Nat.zero_mul, Nat.zero_mod] at hone
    omega
  · refine ⟨1, Nat.le_refl 1, ?_⟩
    rw [heq, Nat.one_mul, Nat.sub_self]
    exact Nat.mod_eq_zero_of_dvd (Nat.gcd_eq_right_iff_dvd.1 heq)

/-- No multiple of a number comes closer. -/
theorem mul_mod_le_sub_gcd (n step : Nat) {size : Nat} (hsize : 0 < size) :
    n * step % size ≤ size - Nat.gcd step size := by
  have hdvd : Nat.gcd step size ∣ n * step % size :=
    (Nat.dvd_mod_iff (Nat.gcd_dvd_right step size)).2 ((Nat.gcd_dvd_left step size).mul_left n)
  have hlt := Nat.mod_lt (n * step) hsize
  have hle : Nat.gcd step size ≤ size - n * step % size :=
    Nat.le_of_dvd (by omega) (Nat.dvd_sub (Nat.gcd_dvd_right step size) hdvd)
  omega

/-- Comparison `n` of a wait, which sees `n` steps, shows that the limit is reached. -/
def Shows (limit step : UInt64) (n : Nat) : Prop :=
  1 ≤ n ∧ limit ≤ UInt64.ofNat n * step

instance (limit step : UInt64) (n : Nat) : Decidable (Shows limit step n) :=
  inferInstanceAs (Decidable (1 ≤ n ∧ limit ≤ UInt64.ofNat n * step))

variable {limit step : UInt64} {n : Nat}

/-- **Some comparison shows the limit, unless wrapping jumps over everything from it on.** -/
theorem exists_shows_iff :
    (∃ n, Shows limit step n) ↔
      limit.toNat ≤ UInt64.size - Nat.gcd step.toNat UInt64.size := by
  constructor
  · rintro ⟨n, -, hle⟩
    rw [UInt64.le_iff_toNat_le, toNat_steps] at hle
    exact hle.trans (mul_mod_le_sub_gcd n step.toNat (by decide))
  · intro hle
    obtain ⟨n, hn, hmod⟩ := exists_mul_mod_eq_sub_gcd step.toNat (show 0 < UInt64.size by decide)
    exact ⟨n, hn, by rw [UInt64.le_iff_toNat_le, toNat_steps, hmod]; exact hle⟩

/-- Comparisons until a counter that does not wrap on the way shows the limit. -/
def comparisons (limit step : UInt64) : Nat :=
  max 1 (limit.toNat ⌈/⌉ step.toNat)

/-- If the limit is a step or more below the size of the word, the counter does not wrap before. -/
theorem comparisons_mul_lt (hstep : 1 ≤ step) (hlimit : limit.toNat ≤ UInt64.size - step.toNat) :
    comparisons limit step * step.toNat < UInt64.size := by
  have hpos : 0 < step.toNat := UInt64.le_iff_toNat_le.1 hstep
  have hlt : step.toNat < UInt64.size := step.toNat_lt
  rw [comparisons]
  rcases Nat.le_total (limit.toNat ⌈/⌉ step.toNat) 1 with hone | hmany
  · rw [Nat.max_eq_left hone, Nat.one_mul]
    exact hlt
  · rw [Nat.max_eq_right hmany]
    -- one comparison less does not show it
    have hless : ¬ limit.toNat ≤ step.toNat * (limit.toNat ⌈/⌉ step.toNat - 1) := by
      rw [← ceilDiv_le_iff_le_mul hpos]
      omega
    rw [Nat.mul_sub, Nat.mul_one, Nat.mul_comm step.toNat] at hless
    omega

/-- **Then that comparison is the first one that shows the limit.** -/
theorem isLeast_comparisons (hstep : 1 ≤ step)
    (hlimit : limit.toNat ≤ UInt64.size - step.toNat) :
    IsLeast {n | Shows limit step n} (comparisons limit step) := by
  have hpos : 0 < step.toNat := UInt64.le_iff_toNat_le.1 hstep
  have hsmall := comparisons_mul_lt hstep hlimit
  have hceil : ∀ n, limit.toNat ⌈/⌉ step.toNat ≤ n ↔ limit.toNat ≤ n * step.toNat := fun n ↦ by
    rw [ceilDiv_le_iff_le_mul hpos, Nat.mul_comm]
  refine ⟨⟨Nat.le_max_left _ _, ?_⟩, fun n ⟨hn, hshows⟩ ↦ Nat.max_le.2 ⟨hn, (hceil n).2 ?_⟩⟩
  · rw [UInt64.le_iff_toNat_le, toNat_steps, Nat.mod_eq_of_lt hsmall]
    exact (hceil _).1 (Nat.le_max_right _ _)
  · rw [UInt64.le_iff_toNat_le, toNat_steps] at hshows
    exact hshows.trans (Nat.mod_le _ _)

/-! ### Machines with a stepping clock -/

namespace Machine

/-- The machine with a clock that starts somewhere and moves by a step at each reading. -/
def timed (m : Machine) (start step : UInt64) : Machine :=
  { m with clock := .stepping start step }

/-- The machine with a watchdog that has counted nothing and allows for so many accesses. -/
def allowing (m : Machine) (patience : Nat) : Machine :=
  { m with watchdog := { limit := patience } }

/-- From the first machine to the second the clock was read `n` times. -/
structure Ticked (m : Machine) (step : UInt64) (n : Nat) (m' : Machine) : Prop where
  /-- The counter moved by as many steps. -/
  counter_eq : m'.clock.counter = m.clock.counter + UInt64.ofNat n * step
  /-- The watchdog counted the readings. -/
  clockReads_eq : m'.watchdog.clockReads = m.watchdog.clockReads + n
  /-- It allows as much. -/
  limit_eq : m'.watchdog.limit = m.watchdog.limit
  /-- The clock runs in the same way. -/
  sample_eq : m'.clock.sample = m.clock.sample

/-- Steps from the second machine on. -/
theorem Ticked.counter_add {m m' : Machine} (h : m.Ticked step n m') (i : Nat) :
    m'.clock.counter + UInt64.ofNat i * step = m.clock.counter + UInt64.ofNat (n + i) * step := by
  rw [h.counter_eq, UInt64.ofNat_add]
  grind

theorem Ticked.trans {m m₁ m' : Machine} {k : Nat} (h : m.Ticked step n m₁)
    (h' : m₁.Ticked step k m') : m.Ticked step (n + k) m' where
  counter_eq := h'.counter_eq.trans (h.counter_add k)
  clockReads_eq := by rw [h'.clockReads_eq, h.clockReads_eq, Nat.add_assoc]
  limit_eq := h'.limit_eq.trans h.limit_eq
  sample_eq := h'.sample_eq.trans h.sample_eq

/-- Time passed since before the second machine. -/
theorem Ticked.waited_eq {m m' : Machine} (h : m.Ticked step 1 m') (i : Nat) :
    m'.clock.counter + UInt64.ofNat i * step - m.clock.counter = UInt64.ofNat (i + 1) * step := by
  rw [h.counter_add, Nat.add_comm]
  grind

theorem Ticked.steps {m m' : Machine} {time : UInt64 → UInt64} (h : m.Ticked step n m')
    (hclock : m.clock.Steps step time) : m'.clock.Steps step time := by
  rw [Clock.Steps, h.sample_eq]
  exact hclock

end Machine

namespace Firmware

variable {m m' : Machine} {start : UInt64} {k cost rounds : Nat} {what : String}
  {ready : Firmware Bool} {calls : Machine → Nat}

/-- The action returns, with a value or a failure, if the watchdog is patient enough. -/
def Returns {α : Type} (x : Firmware α) (m : Machine) : Prop :=
  ∃ patience, ∀ w, patience ≤ w → ∃ r m', x.attempt (m.allowing w) = .ok r m'

/-- A test that fails whenever it is made and does not touch the clock. The watchdog may count the
accesses that it makes, `cost` each time, and stops it only for that. -/
structure Denies (ready : Firmware Bool) (calls : Machine → Nat) (cost : Nat) : Prop where
  /-- It fails. -/
  denied : ∀ m, calls m + cost ≤ m.watchdog.limit →
    ∃ m', ready m = .ok false m' ∧ calls m' = calls m + cost ∧ m'.clock = m.clock ∧
      m'.watchdog.limit = m.watchdog.limit ∧ m'.watchdog.clockReads = m.watchdog.clockReads
  /-- The watchdog stops it. -/
  stopped : ∀ m, m.watchdog.limit < calls m + cost → ∃ m', ready m = .error .hang m'
  /-- Reading the clock does not count. -/
  calls_now : ∀ {m : Machine} {t : UInt64} {m' : Machine}, now m = .ok t m' → calls m' = calls m
  /-- A fresh watchdog has counted nothing. -/
  calls_allowing : ∀ (m : Machine) (w : Nat), calls (m.allowing w) = 0

/-- A scripted condition that never holds, with the number of its tests. -/
theorem denies_check : Denies (check fun _ ↦ false) (·.watchdog.checks) 1 where
  denied _ hlt := ⟨_, check_eq_ok_iff.2 ⟨hlt, rfl, rfl⟩, rfl, rfl, rfl, rfl⟩
  stopped m hle := ⟨m, if_neg (Nat.not_lt.2 (Nat.le_of_lt_succ hle))⟩
  calls_now h := checks_eq_of_now h
  calls_allowing _ _ := rfl

/-- A test that makes no access. -/
theorem denies_pure : Denies (pure false) (fun _ ↦ 0) 0 where
  denied m _ := ⟨m, rfl, rfl, rfl, rfl, rfl⟩
  stopped _ hlt := absurd hlt (Nat.not_lt_zero _)
  calls_now _ := rfl
  calls_allowing _ _ := rfl

/-- Reads the clock, and then it is up to the loop, for as many rounds as the watchdog allows. -/
def sinceNow (loop : UInt64 → Nat → Firmware Unit) : Firmware Unit := do
  loop (← now) (← Firmware.rounds)

/-- Reading a stepping clock. -/
theorem now_of_steps (hclock : m.clock.Steps step id)
    (hlt : m.watchdog.clockReads < m.watchdog.limit) :
    ∃ m', now m = .ok m.clock.counter m' ∧ m.Ticked step 1 m' :=
  ⟨_, now_eq_ok_iff.2 ⟨hlt, _, hclock m.trace m.clock.counter, rfl⟩, by simp, rfl, rfl, rfl⟩

theorem now_of_le (hle : m.watchdog.limit ≤ m.watchdog.clockReads) :
    now m = .error .hang m :=
  if_neg (Nat.not_lt.2 hle)

/-! ### Loops that compare -/

/-- A loop that reads the clock in each of its rounds and leaves once a reading is `limit` or more
past the time it started at. Beside the reading, a round may make accesses that the watchdog counts,
`cost` of them. -/
structure Compares (step limit : UInt64) (loop : UInt64 → Nat → Firmware Unit)
    (leave : UInt64 → Firmware Unit) (calls : Machine → Nat) (cost : Nat) : Prop where
  /-- Without rounds it hangs. -/
  zero : ∀ start m, loop start 0 m = .error .hang m
  /-- If the watchdog allows for it, a round reads the clock and then leaves or goes on. -/
  round : ∀ start m, m.clock.Steps step id → calls m + cost ≤ m.watchdog.limit →
    m.watchdog.clockReads < m.watchdog.limit →
      ∃ m', m.Ticked step 1 m' ∧ calls m' = calls m + cost ∧
        ∀ rounds, loop start (rounds + 1) m =
          (if limit ≤ m.clock.counter - start then leave (m.clock.counter - start)
            else loop start rounds) m'
  /-- Otherwise it hangs. -/
  stopped : ∀ start m rounds, m.clock.Steps step id →
    m.watchdog.limit < calls m + cost ∨ m.watchdog.limit ≤ m.watchdog.clockReads →
      ∃ m', loop start (rounds + 1) m = .error .hang m'
  /-- Leaving is returning. -/
  leaves : ∀ t m, ∃ r, (leave t).attempt m = .ok r m
  /-- Reading the clock does not count among the accesses. -/
  calls_now : ∀ {m : Machine} {t : UInt64} {m' : Machine}, now m = .ok t m' → calls m' = calls m
  /-- A fresh watchdog has counted none. -/
  calls_allowing : ∀ (m : Machine) (w : Nat), calls (m.allowing w) = 0

/-- The rounds of a wait with a limit, if the test fails. -/
theorem Denies.compares (h : Denies ready calls cost) (what : String) :
    Compares step limit (fun start ↦ spinFor limit start what ready)
      (fun t ↦ fail (.timeout what t)) calls cost where
  zero _ _ := rfl
  round start m hclock hcalls hreads := by
    obtain ⟨m₁, hready, hcalls₁, hclock₁, hlimit₁, hreads₁⟩ := h.denied m hcalls
    obtain ⟨m₂, hnow, hticked⟩ := now_of_steps (m := m₁) (hclock₁ ▸ hclock) (by omega)
    rw [hclock₁] at hnow
    refine ⟨m₂, ⟨?_, ?_, ?_, ?_⟩, ?_, fun rounds ↦ spinFor_succ_of_false hready hnow⟩
    · rw [hticked.counter_eq, hclock₁]
    · rw [hticked.clockReads_eq, hreads₁]
    · rw [hticked.limit_eq, hlimit₁]
    · rw [hticked.sample_eq, hclock₁]
    · rw [h.calls_now hnow, hcalls₁]
  stopped start m rounds hclock hfull := by
    by_cases hcalls : calls m + cost ≤ m.watchdog.limit
    · obtain ⟨m₁, hready, -, -, hlimit₁, hreads₁⟩ := h.denied m hcalls
      have hnow : now m₁ = .error .hang m₁ := now_of_le (by omega)
      exact ⟨m₁, (bind_of_ok hready).trans (bind_of_error hnow)⟩
    · obtain ⟨m₁, hready⟩ := h.stopped m (Nat.not_le.1 hcalls)
      exact ⟨m₁, bind_of_error hready⟩
  leaves t m := ⟨.error (.timeout what t), rfl⟩
  calls_now := h.calls_now
  calls_allowing := h.calls_allowing

/-- The rounds of a watched delay. -/
theorem compares_watchFor :
    Compares step limit (fun start ↦ watchFor limit start) (fun _ ↦ pure ()) (fun _ ↦ 0) 0 where
  zero _ _ := rfl
  round start m hclock _ hreads := by
    obtain ⟨m₁, hnow, hticked⟩ := now_of_steps hclock hreads
    refine ⟨m₁, hticked, rfl, fun rounds ↦ (bind_of_ok hnow).trans ?_⟩
    by_cases hle : limit ≤ m.clock.counter - start
    · rw [if_pos hle, if_neg (UInt64.not_lt.2 hle)]
    · rw [if_neg hle, if_pos (UInt64.not_le.1 hle)]
  stopped start m rounds _ hfull :=
    ⟨m, bind_of_error (now_of_le (hfull.resolve_left (Nat.not_lt_zero _)))⟩
  leaves _ m := ⟨.ok (), rfl⟩
  calls_now _ := rfl
  calls_allowing _ _ := rfl

namespace Compares

variable {loop : UInt64 → Nat → Firmware Unit} {leave : UInt64 → Firmware Unit}
  (h : Compares step limit loop leave calls cost)
include h

/-- The loop leaves in the first round whose reading is far enough past the start. -/
theorem loop_leaves (start : UInt64) (hclock : m.clock.Steps step id)
    (hbefore : ∀ i < k, m.clock.counter + UInt64.ofNat i * step - start < limit)
    (hreached : limit ≤ m.clock.counter + UInt64.ofNat k * step - start)
    (hcalls : calls m + (k + 1) * cost ≤ m.watchdog.limit)
    (hreads : m.watchdog.clockReads + k < m.watchdog.limit) :
    ∃ m', m.Ticked step (k + 1) m' ∧ calls m' = calls m + (k + 1) * cost ∧ ∀ rounds,
      loop start (rounds + (k + 1)) m =
        leave (m.clock.counter + UInt64.ofNat k * step - start) m' := by
  have hfirst : m.clock.counter + UInt64.ofNat 0 * step = m.clock.counter := by simp
  induction k generalizing m with
  | zero =>
    rw [Nat.one_mul] at hcalls ⊢
    obtain ⟨m₁, hticked, hcalls₁, hround⟩ := h.round start m hclock hcalls hreads
    rw [hfirst] at hreached ⊢
    exact ⟨m₁, hticked, hcalls₁, fun rounds ↦ by rw [hround, if_pos hreached]⟩
  | succ k ih =>
    rw [Nat.succ_mul] at hcalls ⊢
    obtain ⟨m₁, hticked, hcalls₁, hround⟩ := h.round start m hclock (by omega) (by omega)
    have hlimit₁ := hticked.limit_eq
    have hreads₁ := hticked.clockReads_eq
    -- the reading of this round is at no steps, and those of the rest are counted from the next
    have hlt : m.clock.counter - start < limit := hfirst ▸ hbefore 0 (by omega)
    have hnext := hticked.counter_add
    obtain ⟨m', hticked', hcalls', hloop⟩ := ih (hticked.steps hclock)
      (fun i hi ↦ by rw [hnext]; exact hbefore (1 + i) (by omega))
      (by rw [hnext, Nat.add_comm]; exact hreached) (by omega) (by omega) (by simp)
    refine ⟨m', Nat.add_comm 1 (k + 1) ▸ hticked.trans hticked', by omega, fun rounds ↦ ?_⟩
    rw [← Nat.add_assoc, hround, if_neg (UInt64.not_le.2 hlt), hloop, hnext, Nat.add_comm]

/-- If no reading is, it hangs. -/
theorem loop_hangs (start : UInt64) (rounds : Nat) (hclock : m.clock.Steps step id)
    (hnever : ∀ i, m.clock.counter + UInt64.ofNat i * step - start < limit) :
    ∃ m', loop start rounds m = .error .hang m' := by
  induction rounds generalizing m with
  | zero => exact ⟨m, h.zero start m⟩
  | succ rounds ih =>
    by_cases hroom :
        calls m + cost ≤ m.watchdog.limit ∧ m.watchdog.clockReads < m.watchdog.limit
    · obtain ⟨m₁, hticked, -, hround⟩ := h.round start m hclock hroom.1 hroom.2
      have hlt : m.clock.counter - start < limit := by simpa using hnever 0
      rw [hround, if_neg (UInt64.not_le.2 hlt)]
      exact ih (hticked.steps hclock) fun i ↦ by rw [hticked.counter_add]; exact hnever (1 + i)
    · exact h.stopped start m rounds hclock (by omega)

/-- From the first reading on, a wait leaves at the first comparison that shows the limit. -/
theorem sinceNow_leaves (m : Machine) {w : Nat} (hclock : m.clock.Steps step id)
    (hn : IsLeast {n | Shows limit step n} n) (hreads : n < w) (hcalls : n * cost ≤ w) :
    ∃ m', sinceNow loop (m.allowing w) = leave (UInt64.ofNat n * step) m' ∧
      (m.allowing w).Ticked step (n + 1) m' ∧ calls m' = n * cost := by
  obtain ⟨k, rfl⟩ : ∃ k, n = k + 1 := ⟨n - 1, by have := hn.1.1; omega⟩
  obtain ⟨m₁, hnow, hticked⟩ :=
    now_of_steps (m := m.allowing w) hclock (show 0 < w by omega)
  have hcalls₁ : calls m₁ = 0 := (h.calls_now hnow).trans (h.calls_allowing m w)
  have hlimit₁ : m₁.watchdog.limit = w := hticked.limit_eq
  have hreads₁ : m₁.watchdog.clockReads = 0 + 1 := hticked.clockReads_eq
  have hwaited : ∀ i, m₁.clock.counter + UInt64.ofNat i * step - m.clock.counter =
      UInt64.ofNat (i + 1) * step := hticked.waited_eq
  obtain ⟨m', hticked', hcalls', hloop⟩ :=
    h.loop_leaves (k := k) m.clock.counter (hticked.steps hclock)
      (fun i hi ↦ by
        rw [hwaited]
        exact UInt64.not_le.1 fun hle ↦
          absurd (hn.2 (show Shows limit step (i + 1) from ⟨by omega, hle⟩)) (by omega))
      (by rw [hwaited]; exact hn.1.2) (by omega) (by omega)
  -- the watchdog allows for more rounds than these
  obtain ⟨spare, hspare⟩ : ∃ spare, m₁.watchdog.limit + 1 = spare + (k + 1) :=
    ⟨w - k, by omega⟩
  have hrun : loop m.clock.counter (m₁.watchdog.limit + 1) m₁ =
      leave (UInt64.ofNat (k + 1) * step) m' := by
    rw [hspare, hloop, hwaited]
  exact ⟨m', (bind_of_ok hnow).trans hrun, Nat.add_comm 1 (k + 1) ▸ hticked.trans hticked',
    by omega⟩

/-- If no comparison does, the watchdog has to stop it. -/
theorem sinceNow_hangs (hclock : m.clock.Steps step id) (hnever : ¬ ∃ n, Shows limit step n) :
    ∃ m', sinceNow loop m = .error .hang m' := by
  by_cases hreads : m.watchdog.clockReads < m.watchdog.limit
  · obtain ⟨m₁, hnow, hticked⟩ := now_of_steps hclock hreads
    obtain ⟨m', hloop⟩ := h.loop_hangs m.clock.counter (m₁.watchdog.limit + 1)
      (hticked.steps hclock) fun i ↦ by
        rw [hticked.waited_eq]
        exact UInt64.not_le.1 fun hle ↦ hnever ⟨i + 1, by omega, hle⟩
    exact ⟨m', (bind_of_ok hnow).trans hloop⟩
  · exact ⟨m, bind_of_error (now_of_le (Nat.not_lt.1 hreads))⟩

/-- So it returns exactly if there is a comparison that does. -/
theorem returns_iff {x : Firmware Unit} {m₀ : Machine} (hclock : m.clock.Steps step id)
    (hx : ∀ w, x (m₀.allowing w) = sinceNow loop (m.allowing w)) :
    Returns x m₀ ↔ limit.toNat ≤ UInt64.size - Nat.gcd step.toNat UInt64.size := by
  rw [← exists_shows_iff]
  constructor
  · rintro ⟨patience, hreturns⟩
    by_contra hnever
    obtain ⟨r, m₁, hrun⟩ := hreturns patience (Nat.le_refl _)
    obtain ⟨m', hhang⟩ := h.sinceNow_hangs (m := m.allowing patience) hclock hnever
    rw [attempt, hx, hhang] at hrun
    cases hrun
  · intro hex
    obtain ⟨n, hn⟩ : ∃ n, IsLeast {n | Shows limit step n} n := ⟨_, Nat.isLeast_find hex⟩
    refine ⟨n + 1 + n * cost, fun w hw ↦ ?_⟩
    obtain ⟨m', hrun, -, -⟩ := h.sinceNow_leaves m (w := w) hclock hn (by omega) (by omega)
    obtain ⟨r, hleave⟩ := h.leaves (UInt64.ofNat n * step) m'
    exact ⟨r, m', by rw [attempt, hx, hrun]; exact hleave⟩

end Compares

/-! ### Both waits -/

theorem delay_eq_sinceNow (m : Machine) (start step limit : UInt64) (w : Nat) :
    delay limit ((m.timed start step).allowing w) =
      sinceNow (fun start ↦ watchFor limit start)
        (((m.timed start step).record (.delay limit)).allowing w) :=
  delay_of_watched rfl

/-- **A wait for what never holds and a watched delay return exactly if the limit is at most the
size of the word less the greatest common divisor of the step and that size. If it is at most the
size less a step, they stop at the first comparison at which as much time has passed**, wherever the
clock starts; the wait has made as many tests. -/
theorem bounded_waits (h : Denies ready calls cost) (m : Machine) (start step limit : UInt64)
    (what : String) :
    (Returns (waitUntil (.after limit) what ready) (m.timed start step) ↔
      limit.toNat ≤ UInt64.size - Nat.gcd step.toNat UInt64.size) ∧
    (Returns (delay limit) (m.timed start step) ↔
      limit.toNat ≤ UInt64.size - Nat.gcd step.toNat UInt64.size) ∧
    (1 ≤ step → limit.toNat ≤ UInt64.size - step.toNat →
      ∀ w, comparisons limit step < w → comparisons limit step * cost ≤ w →
      (∃ waited m', waitUntil (.after limit) what ready ((m.timed start step).allowing w) =
          .error (.failure (.timeout what waited)) m' ∧
        waited.toNat = comparisons limit step * step.toNat ∧
        calls m' = comparisons limit step * cost ∧
        ((m.timed start step).allowing w).Ticked step (comparisons limit step + 1) m') ∧
      ∃ m', delay limit ((m.timed start step).allowing w) = .ok () m' ∧
        ((m.timed start step).allowing w).Ticked step (comparisons limit step + 1) m') := by
  have hwait : Compares step limit _ _ _ _ := h.compares what
  have hdelay : Compares step limit _ _ _ _ := compares_watchFor
  have hclock : (m.timed start step).clock.Steps step id := fun _ _ ↦ rfl
  refine ⟨hwait.returns_iff hclock fun _ ↦ rfl,
    hdelay.returns_iff (m := (m.timed start step).record (.delay limit)) hclock
      (delay_eq_sinceNow m start step limit), fun hstep hlimit w hw hcost ↦ ?_⟩
  have hleast := isLeast_comparisons hstep hlimit
  constructor
  · obtain ⟨m', hrun, hticked, hcalls⟩ :=
      hwait.sinceNow_leaves (m.timed start step) hclock hleast hw hcost
    refine ⟨_, m', hrun, ?_, hcalls, hticked⟩
    rw [toNat_steps, Nat.mod_eq_of_lt (comparisons_mul_lt hstep hlimit)]
  · obtain ⟨m', hrun, hticked, -⟩ := hdelay.sinceNow_leaves
      ((m.timed start step).record (.delay limit)) hclock hleast hw (Nat.zero_le w)
    -- recording the request touches neither the clock nor the watchdog
    exact ⟨m', (delay_eq_sinceNow m start step limit w).trans hrun, ⟨hticked.counter_eq,
      hticked.clockReads_eq, hticked.limit_eq, hticked.sample_eq⟩⟩

/-- A clock that moves by 4 never shows a limit of three below the size of the word, but one below
that it does. By steps of 7, a limit of 50 is reached at the eighth comparison, also if the counter
wraps on the way. -/
theorem bounded_waits_wrapping :
    (¬ Returns (delay 0xFFFFFFFFFFFFFFFD) ((default : Machine).timed 1 4) ∧
      Returns (delay 0xFFFFFFFFFFFFFFFC) ((default : Machine).timed 1 4)) ∧
    ∃ waited m', waitUntil (.after 50) "never" (check fun _ ↦ false)
        (((default : Machine).timed 0xFFFFFFFFFFFFFFF0 7).allowing 9) =
          .error (.failure (.timeout "never" waited)) m' ∧
      waited.toNat = 56 ∧ m'.watchdog.checks = 8 ∧ m'.clock.counter = 47 := by
  refine ⟨⟨fun hreturns ↦ ?_, ?_⟩, ?_⟩
  · exact absurd ((bounded_waits denies_pure default 1 4 _ "").2.1.1 hreturns) (by decide)
  · exact (bounded_waits denies_pure default 1 4 _ "").2.1.2 (by decide)
  · obtain ⟨⟨waited, m', hrun, hwaited, hchecks, hticked⟩, -⟩ :=
      (bounded_waits denies_check default 0xFFFFFFFFFFFFFFF0 7 50 "never").2.2 (by decide)
        (by decide) 9 (by decide) (by decide)
    exact ⟨waited, m', hrun, hwaited, hchecks, hticked.counter_eq⟩

end Firmware

end BringUp
