import BringUp.Proofs.Machine.Delay
import BringUp.Proofs.Machine.Wait

/-!
# Machines that differ by their clocks

Two machines are `Alike` if everything but time is the same on them: the bytes, the device, the
registers, what the watchdog counted of reads and tests, and the bus accesses that were made. What
the clock shows, how often it was read, and what else was recorded may differ.

A device that is `DrivenByBus` cannot tell such machines apart. So an action that is made of bus
accesses and computation does the same on both. `EndsAlike x y` says that wherever `y` ends, `x`
ends too, with the same value and a machine that is alike; it is closed under sequencing, and it
holds of a wait without bound and the same wait with a limit (`EndsAlike.waitUntil`), because a wait
that ends in time has made the same tests.
-/

namespace BringUp

/-- Bus accesses decide what the device does: other events leave it unimpressed. -/
structure Device.DrivenByBus (d : Device) : Prop where
  /-- Traces with the same bus accesses have the same effect on a read. -/
  onRead_eq : ∀ {trace trace' : Trace},
    trace.toList.filter Event.isBus = trace'.toList.filter Event.isBus →
      d.onRead trace = d.onRead trace'
  /-- They have the same effect on a write. -/
  onWrite_eq : ∀ {trace trace' : Trace},
    trace.toList.filter Event.isBus = trace'.toList.filter Event.isBus →
      d.onWrite trace = d.onWrite trace'

/-- The bus accesses that were made on a machine. -/
def Machine.busTrace (m : Machine) : List Event :=
  m.trace.toList.filter Event.isBus

/-- Two machines with the same device, on which all but time is the same. -/
structure Alike (d : Device) (m n : Machine) : Prop where
  /-- The first machine has the device. -/
  device_left : m.device = d
  /-- The second machine has it too. -/
  device_right : n.device = d
  /-- Memory is the same. -/
  memory_eq : m.memory = n.memory
  /-- Every address was read as often. -/
  reads_eq : m.reads = n.reads
  /-- The registers hold the same. -/
  csrs_eq : m.csrs = n.csrs
  /-- The same bus accesses were made. -/
  busTrace_eq : m.busTrace = n.busTrace
  /-- The watchdog allows as much. -/
  limit_eq : m.watchdog.limit = n.watchdog.limit
  /-- It counted as many bus reads. -/
  busReads_eq : m.watchdog.busReads = n.watchdog.busReads
  /-- It counted as many tests. -/
  checks_eq : m.watchdog.checks = n.watchdog.checks

variable {d : Device} {m n m' n' : Machine}

theorem Alike.refl (m : Machine) : Alike m.device m m :=
  ⟨rfl, rfl, rfl, rfl, rfl, rfl, rfl, rfl, rfl⟩

theorem Alike.symm (h : Alike d m n) : Alike d n m where
  device_left := h.device_right
  device_right := h.device_left
  memory_eq := h.memory_eq.symm
  reads_eq := h.reads_eq.symm
  csrs_eq := h.csrs_eq.symm
  busTrace_eq := h.busTrace_eq.symm
  limit_eq := h.limit_eq.symm
  busReads_eq := h.busReads_eq.symm
  checks_eq := h.checks_eq.symm

theorem filter_isBus_push (trace : Trace) (e : Event) :
    (trace.push e).toList.filter Event.isBus =
      trace.toList.filter Event.isBus ++ [e].filter Event.isBus := by
  rw [Array.toList_push, List.filter_append]

/-- An event beside the bus makes no difference. -/
theorem Machine.busTrace_record (m : Machine) {e : Event} (h : e.isBus = false) :
    (m.record e).busTrace = m.busTrace := by
  have hnone : [e].filter Event.isBus = [] := by simp [h]
  rw [busTrace, record, filter_isBus_push, hnone, List.append_nil, busTrace]

/-- A reading of the clock on one of the machines makes no difference. -/
theorem Alike.now_right {t : UInt64} (h : Alike d m n) (hnow : Firmware.now n = .ok t n') :
    Alike d m n' := by
  obtain ⟨-, counter, -, rfl⟩ := Firmware.now_eq_ok_iff.1 hnow
  refine { h with busTrace_eq := h.busTrace_eq.trans ?_ }
  exact (n.busTrace_record (e := .clockRead t) rfl).symm

/-- Neither does what is recorded beside the bus. -/
theorem Alike.record_right (h : Alike d m n) {e : Event} (he : e.isBus = false) :
    Alike d m (n.record e) :=
  { h with busTrace_eq := h.busTrace_eq.trans (n.busTrace_record he).symm }

namespace Firmware

theorem alike_of_watchFor {micros start : UInt64} {rounds : Nat} (h : Alike d m n)
    (hrun : watchFor micros start rounds n = .ok () n') : Alike d m n' := by
  induction rounds generalizing n with
  | zero => cases hrun
  | succ rounds ih =>
    obtain ⟨t, n₁, hnow, hrest⟩ := bind_eq_ok_iff.1 hrun
    have h₁ := h.now_right hnow
    split at hrest
    · exact ih h₁ hrest
    · cases hrest
      exact h₁

/-- A delay makes no difference either, in whatever way it passes. -/
theorem alike_of_delay {micros : UInt64} (hrun : delay micros m = .ok () m') :
    Alike m.device m m' := by
  have hrecord : Alike m.device m (m.record (.delay micros)) := (Alike.refl m).record_right rfl
  rcases hpassing : m.clock.passing with - | -
  · rw [delay_of_winds hpassing] at hrun
    cases hrun
    exact { hrecord with }
  · rw [delay_of_watched hpassing] at hrun
    obtain ⟨start, m₁, hnow, hrest⟩ := bind_eq_ok_iff.1 hrun
    exact alike_of_watchFor (hrecord.now_right hnow) hrest

/-- From machines that are alike, wherever the second action ends the first one ends with the same
value, and the machines they leave are alike. -/
def EndsAlike {α : Type} (d : Device) (x y : Firmware α) : Prop :=
  ∀ m n, Alike d m n → ∀ a n', y n = .ok a n' → ∃ m', x m = .ok a m' ∧ Alike d m' n'

variable {α β : Type} {x y : Firmware α} {f g : α → Firmware β}

namespace EndsAlike

theorem pure (a : α) : EndsAlike d (pure a) (pure a : Firmware α) := by
  rintro m n h _ _ ⟨⟩
  exact ⟨m, rfl, h⟩

/-- Of an action that stops everywhere nothing is asked. -/
theorem stop (x : Firmware α) (s : Stop) : EndsAlike d x (throw s : Firmware α) :=
  fun _ _ _ _ _ ↦ nofun

theorem lift (r : Except Stop α) :
    EndsAlike d (liftExcept r) (liftExcept r : Firmware α) := by
  cases r with
  | ok a => exact pure a
  | error s => exact stop _ s

theorem bind (hx : EndsAlike d x y) (hf : ∀ a, EndsAlike d (f a) (g a)) :
    EndsAlike d (x >>= f) (y >>= g) := by
  intro m n h b n' hy
  obtain ⟨a, n₁, hfirst, hrest⟩ := bind_eq_ok_iff.1 hy
  obtain ⟨m₁, hx₁, h₁⟩ := hx m n h a n₁ hfirst
  obtain ⟨m', hf', h'⟩ := hf a m₁ n₁ h₁ b n' hrest
  exact ⟨m', (bind_of_ok hx₁).trans hf', h'⟩

theorem ite {c : Prop} [Decidable c] {x' y' : Firmware α} (hx : EndsAlike d x y)
    (hx' : EndsAlike d x' y') : EndsAlike d (if c then x else x') (if c then y else y') := by
  split
  · exact hx
  · exact hx'

/-- What comes after an attempt matters only for attempts that succeed, if the other ones stop
there. -/
theorem attempt_bind {f g : Except Failure α → Firmware β} (hx : EndsAlike d x y)
    (hok : ∀ a, EndsAlike d (f (.ok a)) (g (.ok a)))
    (herror : ∀ cause n b n', g (.error cause) n ≠ .ok b n') :
    EndsAlike d (x.attempt >>= f) (y.attempt >>= g) := by
  intro m n h b n' hy
  obtain ⟨r, n₁, hattempt, hrest⟩ := bind_eq_ok_iff.1 hy
  rcases attempt_eq_ok hattempt with ⟨a, rfl, hrun⟩ | ⟨cause, rfl, -⟩
  · obtain ⟨m₁, hx₁, h₁⟩ := hx m n h a n₁ hrun
    obtain ⟨m', hf', h'⟩ := hok a m₁ n₁ h₁ b n' hrest
    have hattempt₁ : x.attempt m = .ok (.ok a) m₁ := by rw [Firmware.attempt, hx₁]
    exact ⟨m', (bind_of_ok hattempt₁).trans hf', h'⟩
  · exact absurd hrest (herror cause n₁ b n')

theorem log (level : Level) (text : String) : EndsAlike d (log level text) (log level text) := by
  rintro m n h _ _ ⟨⟩
  exact ⟨_, rfl, (h.symm.record_right rfl).symm.record_right rfl⟩

/-- A scripted condition does not look at the clock. -/
theorem check (answers : Nat → Bool) : EndsAlike d (check answers) (check answers) := by
  intro m n h answer n' hy
  obtain ⟨hlt, rfl, rfl⟩ := check_eq_ok_iff.1 hy
  rw [← h.checks_eq, ← h.limit_eq] at hlt
  refine ⟨_, check_eq_ok_iff.2 ⟨hlt, by rw [h.checks_eq], rfl⟩, { h with checks_eq := ?_ }⟩
  exact congrArg (· + 1) h.checks_eq

theorem busRead (hd : d.DrivenByBus) (w : Width) (address : UInt64) :
    EndsAlike d (busRead w address) (busRead w address) := by
  intro m n h v n' hy
  obtain ⟨hlt, hfits, memory, hmemory, rfl, rfl⟩ := busRead_eq_ok_iff.1 hy
  have hreads : m.readsOf address = n.readsOf address := by
    rw [Machine.readsOf, h.reads_eq, Machine.readsOf]
  -- the device reacts to the same
  rw [h.device_right, ← hd.onRead_eq h.busTrace_eq, ← hreads, ← h.memory_eq, ← h.device_left]
    at hmemory
  rw [← h.busReads_eq, ← h.limit_eq] at hlt
  refine ⟨_, busRead_eq_ok_iff.2 ⟨hlt, hfits, memory, hmemory, rfl, rfl⟩, { h with
    memory_eq := rfl
    reads_eq := ?_
    busTrace_eq := ?_
    busReads_eq := ?_ }⟩
  · rw [h.reads_eq, hreads]
  · exact (filter_isBus_push _ _).trans ((congrArg (· ++ _) h.busTrace_eq).trans
      (filter_isBus_push _ _).symm)
  · exact congrArg (· + 1) h.busReads_eq

theorem busWrite (hd : d.DrivenByBus) (w : Width) (address : UInt64) (value : UInt32) :
    EndsAlike d (busWrite w address value) (busWrite w address value) := by
  intro m n h _ n' hy
  obtain ⟨hfits, memory, hmemory, rfl⟩ := busWrite_eq_ok_iff.1 hy
  rw [h.device_right, ← hd.onWrite_eq h.busTrace_eq, ← h.memory_eq, ← h.device_left] at hmemory
  refine ⟨_, busWrite_eq_ok_iff.2 ⟨hfits, memory, hmemory, rfl⟩, { h with
    memory_eq := rfl
    busTrace_eq := ?_ }⟩
  exact (filter_isBus_push _ _).trans ((congrArg (· ++ _) h.busTrace_eq).trans
    (filter_isBus_push _ _).symm)

/-! ### Waits -/

/-- **A wait that ends in time has made the tests of a wait without bound.** -/
theorem spinFor {ready : Firmware Bool} (hready : EndsAlike d ready ready) (limit start : UInt64)
    (what : String) (rounds : Nat) :
    EndsAlike d (spin ready rounds) (spinFor limit start what ready rounds) := by
  induction rounds with
  | zero => exact fun _ _ _ _ _ ↦ nofun
  | succ rounds ih =>
    refine bind hready fun answer ↦ ?_
    cases answer with
    | true => exact pure ()
    | false =>
      -- between two tests only the clock is read
      intro m n h _ n' hy
      obtain ⟨t, n₁, hnow, hrest⟩ := bind_eq_ok_iff.1 hy
      have h₁ : Alike d m n₁ := h.now_right hnow
      by_cases hle : limit ≤ t - start
      · rw [if_pos hle] at hrest
        cases hrest
      · rw [if_neg hle] at hrest
        exact ih m n₁ h₁ () n' hrest

theorem waitUntil {ready : Firmware Bool} (hready : EndsAlike d ready ready) (limit : UInt64)
    (what : String) :
    EndsAlike d (waitUntil .never what ready) (waitUntil (.after limit) what ready) := by
  intro m n h _ n' hy
  obtain ⟨start, n₁, hnow, hrest⟩ := bind_eq_ok_iff.1 hy
  have h₁ : Alike d m n₁ := h.now_right hnow
  have hspin : Firmware.spinFor limit start what ready (n₁.watchdog.limit + 1) n₁ = .ok () n' :=
    hrest
  rw [← h₁.limit_eq] at hspin
  exact spinFor hready limit start what _ m n₁ h₁ () n' hspin

end EndsAlike

end Firmware

end BringUp
