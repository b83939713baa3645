import BringUp.Proofs.Machine.Alike

/-!
# With a deadline and without

A wait for a scripted condition, compared with itself under another deadline. The two kinds of wait
read the clock at different moments, one of them never, so they are compared from machines that are
alike. As long as the condition fails both make the same tests; the wait with a limit can only stop
earlier, and does so when a reading of the clock shows that the limit was reached.

That needs a clock that can be read: `m.Readable k` says that the next `k` readings give a time,
which they do not if the watchdog stops them or the clock has nothing to show.
-/

namespace BringUp

/-! ### Readings to come -/

/-- So many readings of the clock in a row give a time. -/
def Machine.Readable (m : Machine) : Nat → Prop
  | 0 => True
  | k + 1 => ∃ t m₁, Firmware.now m = .ok t m₁ ∧ m₁.Readable k

namespace Machine

variable {m m' : Machine} {k : Nat}

/-- A clock that always shows something can be read until the watchdog is used up. -/
theorem readable_of_le (hshows : ∀ trace counter, ((m.clock.sample trace counter).1).isSome = true)
    (hle : m.watchdog.clockReads + k ≤ m.watchdog.limit) : m.Readable k := by
  induction k generalizing m with
  | zero => trivial
  | succ k ih =>
    obtain ⟨t, ht⟩ := Option.isSome_iff_exists.1 (hshows m.trace m.clock.counter)
    refine ⟨t, _, Firmware.now_eq_ok_iff.2 ⟨by omega, _, Prod.ext ht rfl, rfl⟩, ih hshows ?_⟩
    show m.watchdog.clockReads + 1 + k ≤ m.watchdog.limit
    omega

/-- A clock does not know how many tests were made. -/
theorem Readable.of_checks (h : m.Readable k) (checks : Nat) :
    { m with watchdog.checks := checks }.Readable k := by
  induction k generalizing m with
  | zero => trivial
  | succ k ih =>
    obtain ⟨t, m₁, hnow, hrest⟩ := h
    obtain ⟨hlt, counter, hsample, rfl⟩ := Firmware.now_eq_ok_iff.1 hnow
    exact ⟨t, _, Firmware.now_eq_ok_iff.2 ⟨hlt, counter, hsample, rfl⟩, ih hrest⟩

theorem Readable.check {answers : Nat → Bool} {answer : Bool} (h : m.Readable k)
    (hcheck : Firmware.check answers m = .ok answer m') : m'.Readable k := by
  obtain ⟨-, -, rfl⟩ := Firmware.check_eq_ok_iff.1 hcheck
  exact h.of_checks _

end Machine

namespace Firmware

variable {d : Device} {m n m' n' m₁ : Machine} {x : Firmware Unit} {answers : Nat → Bool}
  {limit start : UInt64} {what : String} {rounds k : Nat}

/-! ### Counting tests -/

/-- The action ends after so many tests. -/
def EndsAfter (x : Firmware Unit) (k : Nat) (m : Machine) : Prop :=
  ∃ m', x m = .ok () m' ∧ m'.watchdog.checks = m.watchdog.checks + k

/-- The action fails after so many tests because its time is up. -/
def TimesOutAfter (what : String) (x : Firmware Unit) (k : Nat) (m : Machine) : Prop :=
  ∃ waited m', x m = .error (.failure (.timeout what waited)) m' ∧
    m'.watchdog.checks = m.watchdog.checks + k

/-- Reading the clock is no test. -/
theorem checks_eq_of_now {t : UInt64} (h : now m = .ok t m') :
    m'.watchdog.checks = m.watchdog.checks := by
  obtain ⟨-, _, -, rfl⟩ := now_eq_ok_iff.1 h
  rfl

/-- A wait that ends has made a test. -/
theorem checks_lt_of_spin (h : spin (check answers) rounds m = .ok () m') :
    m.watchdog.checks < m'.watchdog.checks := by
  induction rounds generalizing m with
  | zero => cases h
  | succ rounds ih =>
    obtain ⟨answer, m₁, hcheck, hrest⟩ := bind_eq_ok_iff.1 h
    obtain ⟨-, -, rfl⟩ := check_eq_ok_iff.1 hcheck
    cases answer with
    | true =>
      cases hrest
      exact Nat.lt_succ_self _
    | false =>
      have hlt : m.watchdog.checks + 1 < m'.watchdog.checks := ih hrest
      omega

/-! ### From the wait without bound to the wait with a limit -/

/-- Where a wait without bound ends, a wait with a limit ends with it, or gives up before. The
readings of the clock stand between the tests, so they are one fewer. -/
theorem spinFor_of_spin (h : Alike d m n) (hreadable : n.Readable k)
    (hspin : (spin (check answers) rounds).EndsAfter (k + 1) m) :
    (spinFor limit start what (check answers) rounds).EndsAfter (k + 1) n ∨
      ∃ j, 1 ≤ j ∧ j < k + 1 ∧
        (spinFor limit start what (check answers) rounds).TimesOutAfter what j n := by
  induction rounds generalizing m n k with
  | zero =>
    obtain ⟨_, ⟨⟩, -⟩ := hspin
  | succ rounds ih =>
    obtain ⟨m', hspin, hk⟩ := hspin
    obtain ⟨answer, m₁, hcheck, hrest⟩ := bind_eq_ok_iff.1 hspin
    -- both make the test, and it has the same answer
    obtain ⟨n₁, hcheck', h₁⟩ := EndsAlike.check answers n m h.symm answer m₁ hcheck
    obtain ⟨-, -, rfl⟩ := check_eq_ok_iff.1 hcheck
    have hchecks₁ : n₁.watchdog.checks = n.watchdog.checks + 1 := by rw [h₁.checks_eq, h.checks_eq]
    cases answer with
    | true =>
      cases hrest
      have hone : m.watchdog.checks + 1 = m.watchdog.checks + (k + 1) := hk
      exact .inl ⟨n₁, bind_of_ok hcheck', by omega⟩
    | false =>
      -- one more test is to come, and the clock is read before it
      have hlt : m.watchdog.checks + 1 < m'.watchdog.checks := checks_lt_of_spin hrest
      obtain ⟨k, rfl⟩ : ∃ k', k = k' + 1 := ⟨k - 1, by omega⟩
      obtain ⟨t, n₂, hnow, hreadable₂⟩ := hreadable.check hcheck'
      have h₂ : Alike d _ n₂ := h₁.symm.now_right hnow
      have hchecks₂ : n₂.watchdog.checks = n.watchdog.checks + 1 :=
        (checks_eq_of_now hnow).trans hchecks₁
      have hround : spinFor limit start what (check answers) (rounds + 1) n = _ :=
        spinFor_succ_of_false hcheck' hnow
      by_cases hle : limit ≤ t - start
      · rw [if_pos hle] at hround
        exact .inr ⟨1, Nat.le_refl 1, by omega, t - start, n₂, hround, hchecks₂⟩
      · rw [if_neg hle] at hround
        have hk' : m'.watchdog.checks = m.watchdog.checks + 1 + (k + 1) := by omega
        rcases ih h₂ hreadable₂ ⟨m', hrest, hk'⟩ with
          ⟨n', hspin', hn'⟩ | ⟨j, hj, hjk, waited, n', hspin', hn'⟩
        · exact .inl ⟨n', hround.trans hspin', by omega⟩
        · exact .inr ⟨j + 1, by omega, by omega, waited, n', hround.trans hspin', by omega⟩

/-- **A wait with a limit ends after the tests of the wait without bound, or gives up before.** -/
theorem waitUntil_of_never (hreadable : m.Readable k)
    (h : (waitUntil .never what (check answers)).EndsAfter k m) :
    (waitUntil (.after limit) what (check answers)).EndsAfter k m ∨
      ∃ j, 1 ≤ j ∧ j < k ∧
        (waitUntil (.after limit) what (check answers)).TimesOutAfter what j m := by
  obtain ⟨m', hwait, hk⟩ := h
  have hspin : spin (check answers) (m.watchdog.limit + 1) m = .ok () m' := hwait
  have hlt : m.watchdog.checks < m'.watchdog.checks := checks_lt_of_spin hspin
  obtain ⟨k, rfl⟩ : ∃ k', k = k' + 1 := ⟨k - 1, by omega⟩
  -- the first reading is before the first test
  obtain ⟨start, n, hnow, hreadable'⟩ := hreadable
  have h₁ : Alike m.device m n := (Alike.refl m).now_right hnow
  have hwait' : waitUntil (.after limit) what (check answers) m =
      spinFor limit start what (check answers) (m.watchdog.limit + 1) n := by
    rw [h₁.limit_eq]
    exact bind_of_ok hnow
  rcases spinFor_of_spin h₁ hreadable' ⟨m', hspin, hk⟩ with
    ⟨n', hend, hn'⟩ | ⟨j, hj, hjk, waited, n', hend, hn'⟩
  · exact .inl ⟨n', hwait'.trans hend, by rw [hn', h₁.checks_eq]⟩
  · exact .inr ⟨j, hj, hjk, waited, n', hwait'.trans hend, by rw [hn', h₁.checks_eq]⟩

/-- **The wait without bound ends after the tests of a wait with a limit that ends.** -/
theorem never_of_waitUntil (h : (waitUntil (.after limit) what (check answers)).EndsAfter k m) :
    (waitUntil .never what (check answers)).EndsAfter k m := by
  obtain ⟨n', hwait, hk⟩ := h
  obtain ⟨m', hnever, h'⟩ :=
    EndsAlike.waitUntil (.check answers) limit what m m (.refl m) () n' hwait
  exact ⟨m', hnever, h'.checks_eq.trans hk⟩

/-! ### Giving up -/

/-- What a wait that started at some time saw before it gave up: the clock was read after each test,
first with too little time passed and then with enough, and no test succeeded. -/
structure Expired (answers : Nat → Bool) (limit start : UInt64) (readings : List UInt64)
    (last : UInt64) (m m' : Machine) : Prop where
  /-- At the last reading the limit was reached. -/
  reached : limit ≤ last - start
  /-- At the readings before it was not. -/
  before : ∀ t ∈ readings, t - start < limit
  /-- There were as many tests as readings. -/
  tests : m'.watchdog.checks = m.watchdog.checks + (readings.length + 1)
  /-- All of them failed. -/
  refused : ∀ i < readings.length + 1, answers (m.watchdog.checks + i) = false

/-- A failing test and a reading at which the limit is not reached come before. -/
theorem Expired.cons {readings : List UInt64} {t last : UInt64}
    (h : Expired answers limit start readings last m₁ m') (hlt : t - start < limit)
    (hchecks : m₁.watchdog.checks = m.watchdog.checks + 1)
    (hanswer : answers m.watchdog.checks = false) :
    Expired answers limit start (t :: readings) last m m' where
  reached := h.reached
  before := List.forall_mem_cons.2 ⟨hlt, h.before⟩
  tests := by rw [h.tests, hchecks, List.length_cons]; omega
  refused i hi := by
    cases i with
    | zero => exact hanswer
    | succ i =>
      rw [show m.watchdog.checks + (i + 1) = m₁.watchdog.checks + i by omega]
      exact h.refused i (by simpa using hi)

/-- How the rounds of a wait fail. -/
theorem spinFor_check_eq_failure {cause : Failure}
    (h : spinFor limit start what (check answers) rounds m = .error (.failure cause) m') :
    ∃ readings last, m.Leads ((readings ++ [last]).map .clockRead) m' ∧
      cause = .timeout what (last - start) ∧
      Expired answers limit start readings last m m' := by
  induction rounds generalizing m with
  | zero => cases h
  | succ rounds ih =>
    rcases bind_eq_error_iff.1 h with hcheck | ⟨answer, m₁, hcheck, hrest⟩
    · exact absurd hcheck check_ne_failure
    have hleads₁ := check_eq_ok hcheck
    obtain ⟨-, hanswer, rfl⟩ := check_eq_ok_iff.1 hcheck
    cases answer with
    | true => cases hrest
    | false =>
      rcases bind_eq_error_iff.1 hrest with hnow | ⟨t, m₂, hnow, hloop⟩
      · exact absurd hnow now_ne_failure
      have hleads₂ := hleads₁.trans (now_eq_ok hnow).1
      have hchecks₂ : m₂.watchdog.checks = m.watchdog.checks + 1 := checks_eq_of_now hnow
      split at hloop
      · next hle =>
        cases hloop
        refine ⟨[], t, hleads₂, rfl, hle, List.forall_mem_nil _, hchecks₂, fun i hi ↦ ?_⟩
        obtain rfl : i = 0 := by simpa using hi
        exact hanswer.symm
      · next hlt =>
        obtain ⟨readings, last, hleads, hcause, hexpired⟩ := ih hloop
        refine ⟨t :: readings, last, hleads₂.trans hleads, hcause, ?_⟩
        exact hexpired.cons (by simpa using hlt) hchecks₂ hanswer.symm

/-- **A wait gives up after tests that all failed, once the limit is reached.** -/
theorem waitUntil_check_eq_failure {cause : Failure}
    (h : waitUntil (.after limit) what (check answers) m = .error (.failure cause) m') :
    ∃ start readings last, m.Leads ((start :: (readings ++ [last])).map .clockRead) m' ∧
      cause = .timeout what (last - start) ∧
      Expired answers limit start readings last m m' := by
  rcases bind_eq_error_iff.1 h with hnow | ⟨start, m₁, hnow, hrest⟩
  · exact absurd hnow now_ne_failure
  have hspin : spinFor limit start what (check answers) (m₁.watchdog.limit + 1) m₁ =
      .error (.failure cause) m' := hrest
  obtain ⟨readings, last, hleads, hcause, hexpired⟩ := spinFor_check_eq_failure hspin
  refine ⟨start, readings, last, (now_eq_ok hnow).1.trans hleads, hcause, ?_⟩
  obtain ⟨-, _, -, rfl⟩ := now_eq_ok_iff.1 hnow
  exact ⟨hexpired.reached, hexpired.before, hexpired.tests, hexpired.refused⟩

end Firmware

end BringUp
