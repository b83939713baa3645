import BringUp.Proofs.Machine.Access

/-!
# Waits that end

How a wait for a condition can end, in terms of its tests. While it is `Busy`, tests fail and the
clock is read; a wait that ends was busy up to a test that succeeded, and one that runs out of time
was busy up to a test that failed and a reading of the clock at which the limit was reached.
-/

namespace BringUp.Firmware

variable {ready : Firmware Bool} {m m' : Machine} {limit start : UInt64} {what : String} {n : Nat}

/-- From the first machine to the second, tests fail and the clock is read, any number of times. -/
inductive Busy (ready : Firmware Bool) : Machine → Machine → Prop
  /-- Nothing happens. -/
  | refl (m : Machine) : Busy ready m m
  /-- A test fails first. -/
  | test {m m₁ m₂ : Machine} (h : ready m = .ok false m₁) (hrest : Busy ready m₁ m₂) :
      Busy ready m m₂
  /-- The clock is read first. -/
  | tick {t : UInt64} {m m₁ m₂ : Machine} (h : now m = .ok t m₁) (hrest : Busy ready m₁ m₂) :
      Busy ready m m₂

/-- A wait ran out of time: it was busy up to a failing test, and then the clock showed it. -/
def RanOut (ready : Firmware Bool) (m m' : Machine) : Prop :=
  ∃ m₁ m₂ t, Busy ready m m₁ ∧ ready m₁ = .ok false m₂ ∧ now m₂ = .ok t m'

theorem RanOut.test {m₁ : Machine} (h : ready m = .ok false m₁) (hrest : RanOut ready m₁ m') :
    RanOut ready m m' := by
  obtain ⟨m₂, m₃, t, hbusy, hfalse, hnow⟩ := hrest
  exact ⟨m₂, m₃, t, .test h hbusy, hfalse, hnow⟩

theorem RanOut.tick {t : UInt64} {m₁ : Machine} (h : now m = .ok t m₁)
    (hrest : RanOut ready m₁ m') : RanOut ready m m' := by
  obtain ⟨m₂, m₃, t', hbusy, hfalse, hnow⟩ := hrest
  exact ⟨m₂, m₃, t', .tick h hbusy, hfalse, hnow⟩

/-! ### Without bound -/

theorem spin_eq_ok (h : spin ready n m = .ok () m') :
    ∃ m₁, Busy ready m m₁ ∧ ready m₁ = .ok true m' := by
  induction n generalizing m with
  | zero => cases h
  | succ n ih =>
    obtain ⟨answer, m₁, hready, hrest⟩ := bind_eq_ok_iff.1 h
    cases answer with
    | true =>
      cases hrest
      exact ⟨m, .refl m, hready⟩
    | false =>
      obtain ⟨m₂, hbusy, htrue⟩ := ih hrest
      exact ⟨m₂, .test hready hbusy, htrue⟩

/-- A wait without bound fails only if its test does. -/
theorem spin_eq_failure {cause : Failure} (h : spin ready n m = .error (.failure cause) m') :
    ∃ m₁, ready m₁ = .error (.failure cause) m' := by
  induction n generalizing m with
  | zero => cases h
  | succ n ih =>
    rcases bind_eq_error_iff.1 h with hready | ⟨answer, m₁, -, hrest⟩
    · exact ⟨m, hready⟩
    · cases answer with
      | true => cases hrest
      | false => exact ih hrest

/-! ### With a limit -/

theorem spinFor_eq_ok (h : spinFor limit start what ready n m = .ok () m') :
    ∃ m₁, Busy ready m m₁ ∧ ready m₁ = .ok true m' := by
  induction n generalizing m with
  | zero => cases h
  | succ n ih =>
    obtain ⟨answer, m₁, hready, hrest⟩ := bind_eq_ok_iff.1 h
    cases answer with
    | true =>
      cases hrest
      exact ⟨m, .refl m, hready⟩
    | false =>
      obtain ⟨t, m₂, hnow, hloop⟩ := bind_eq_ok_iff.1 hrest
      split at hloop
      · cases hloop
      · obtain ⟨m₃, hbusy, htrue⟩ := ih hloop
        exact ⟨m₃, .test hready (.tick hnow hbusy), htrue⟩

/-- A wait with a limit fails if its test does, or when the time has run out. -/
theorem spinFor_eq_failure {cause : Failure}
    (h : spinFor limit start what ready n m = .error (.failure cause) m') :
    (∃ m₁, ready m₁ = .error (.failure cause) m') ∨
      (∃ waited, cause = .timeout what waited ∧ limit ≤ waited) ∧ RanOut ready m m' := by
  induction n generalizing m with
  | zero => cases h
  | succ n ih =>
    rcases bind_eq_error_iff.1 h with hready | ⟨answer, m₁, hready, hrest⟩
    · exact .inl ⟨m, hready⟩
    · cases answer with
      | true => cases hrest
      | false =>
        -- a reading of the clock stops a wait only by the watchdog or an overflow
        rcases bind_eq_error_iff.1 hrest with hnow | ⟨t, m₂, hnow, hloop⟩
        · exact absurd hnow now_ne_failure
        · split at hloop
          · next hle =>
            cases hloop
            exact .inr ⟨⟨t - start, rfl, hle⟩, m, m₁, t, .refl m, hready, hnow⟩
          · refine (ih hloop).imp_right fun ⟨htimeout, hout⟩ ↦ ⟨htimeout, ?_⟩
            exact .test hready (.tick hnow hout)

/-- A round in which the test fails and the clock is read. -/
theorem spinFor_succ_of_false {m₁ m₂ : Machine} {t : UInt64} (hready : ready m = .ok false m₁)
    (hnow : now m₁ = .ok t m₂) :
    spinFor limit start what ready (n + 1) m =
      (if limit ≤ t - start then fail (.timeout what (t - start))
        else spinFor limit start what ready n) m₂ :=
  (bind_of_ok hready).trans (bind_of_ok hnow)

/-- Whether the time of a wait runs out in its rounds, before its test succeeds. A closed wait can
be run up to there to find out. -/
def runsOut (limit start : UInt64) (ready : Firmware Bool) : Nat → Firmware Bool
  | 0 => return false
  | n + 1 => do
    if ← ready then
      return false
    else if limit ≤ (← now) - start then
      return true
    else
      runsOut limit start ready n

/-- If it does, the wait fails. -/
theorem spinFor_of_runsOut (what : String) (h : runsOut limit start ready n m = .ok true m') :
    ∃ waited, spinFor limit start what ready n m = .error (.failure (.timeout what waited)) m' := by
  induction n generalizing m with
  | zero => cases h
  | succ n ih =>
    obtain ⟨answer, m₁, hready, hrest⟩ := bind_eq_ok_iff.1 h
    cases answer with
    | true => cases hrest
    | false =>
      obtain ⟨t, m₂, hnow, hloop⟩ := bind_eq_ok_iff.1 hrest
      rw [spinFor_succ_of_false hready hnow]
      split at hloop
      · next hle =>
        cases hloop
        rw [if_pos hle]
        exact ⟨t - start, rfl⟩
      · next hlt =>
        rw [if_neg hlt]
        exact ih hloop

/-! ### Until a deadline -/

/-- **A wait that ends was busy up to a test that succeeded.** -/
theorem waitUntil_eq_ok {deadline : Deadline} (h : waitUntil deadline what ready m = .ok () m') :
    ∃ m₁, Busy ready m m₁ ∧ ready m₁ = .ok true m' := by
  cases deadline with
  | never =>
    have hspin : spin ready (m.watchdog.limit + 1) m = .ok () m' := h
    exact spin_eq_ok hspin
  | after limit =>
    obtain ⟨start, m₁, hnow, hrest⟩ := bind_eq_ok_iff.1 h
    have hspin : spinFor limit start what ready (m₁.watchdog.limit + 1) m₁ = .ok () m' := hrest
    obtain ⟨m₃, hbusy, htrue⟩ := spinFor_eq_ok hspin
    exact ⟨m₃, .tick hnow hbusy, htrue⟩

/-- **A wait fails if its test does, or when its time has run out.** -/
theorem waitUntil_eq_failure {deadline : Deadline} {cause : Failure}
    (h : waitUntil deadline what ready m = .error (.failure cause) m') :
    (∃ m₁, ready m₁ = .error (.failure cause) m') ∨
      (∃ limit waited, deadline = .after limit ∧ cause = .timeout what waited ∧ limit ≤ waited) ∧
        RanOut ready m m' := by
  cases deadline with
  | never =>
    have hspin : spin ready (m.watchdog.limit + 1) m = .error (.failure cause) m' := h
    exact .inl (spin_eq_failure hspin)
  | after limit =>
    rcases bind_eq_error_iff.1 h with hnow | ⟨start, m₁, hnow, hrest⟩
    · exact absurd hnow now_ne_failure
    · have hspin : spinFor limit start what ready (m₁.watchdog.limit + 1) m₁ =
          .error (.failure cause) m' := hrest
      rcases spinFor_eq_failure hspin with hready | ⟨⟨waited, hcause, hle⟩, hout⟩
      · exact .inl hready
      · exact .inr ⟨⟨limit, waited, rfl, hcause, hle⟩, .tick hnow hout⟩

/-- A closed wait whose time runs out. -/
theorem waitUntil_of_runsOut (what : String)
    (h : (do runsOut limit (← now) ready (← rounds) : Firmware Bool) m = .ok true m') :
    ∃ waited, waitUntil (.after limit) what ready m =
      .error (.failure (.timeout what waited)) m' := by
  obtain ⟨start, m₁, hnow, hrest⟩ := bind_eq_ok_iff.1 h
  have hout : runsOut limit start ready (m₁.watchdog.limit + 1) m₁ = .ok true m' := hrest
  obtain ⟨waited, hspin⟩ := spinFor_of_runsOut what hout
  exact ⟨waited, (bind_of_ok hnow).trans hspin⟩

end BringUp.Firmware
