import BringUp.Proofs.Machine.Run
import BringUp.Register.Block

/-!
# Accesses

What the primitive actions, the waits and the accesses to register blocks leave behind. Where later
statements need the values, an action has the inversion of the ways it can run (`busRead_eq_ok`,
`Block.write_eq_error`, …); the others have the closure lemma of `Firmware.Emits` alone.

A bus access raises no failure. It ends, or a computation leaves the word, or the watchdog stops it:
the machine that it stops in is the one that it started from, so an access that stops leaves no
event.
-/

namespace BringUp

namespace Firmware

variable {α β : Type} {x : Firmware α} {f : α → Firmware β} {m m' : Machine} {p : Event → Prop}

theorem Emits.of_runs
    (hok : ∀ m a m', x m = .ok a m' → ∃ es, m.Leads es m' ∧ ∀ e ∈ es, p e)
    (herr : ∀ m s m', x m = .error s m' → ∃ es, m.Leads es m' ∧ ∀ e ∈ es, p e) : Emits p x := by
  intro m
  rcases h : x m with ⟨a, m'⟩ | ⟨s, m'⟩
  · rw [after_of_ok h]
    exact hok m a m' h
  · rw [after_of_error h]
    exact herr m s m' h

/-! ### Bus -/

section Bus

variable {w : Width} {address : UInt64} {value : UInt32}

/-- When a read ends, and in what. -/
theorem busRead_eq_ok_iff {v : UInt32} : busRead w address m = .ok v m' ↔
    m.watchdog.busReads < m.watchdog.limit ∧ w.fits address = true ∧
      ∃ memory, m.device.onRead m.trace address (m.readsOf address) m.memory = some memory ∧
        v = memory.load address w ∧
        m' = { m with
          memory
          reads := m.reads.insert address (m.readsOf address + 1)
          watchdog.busReads := m.watchdog.busReads + 1
          trace := m.trace.push (.busRead w address (memory.load address w)) } := by
  unfold busRead
  constructor
  · intro h
    split at h
    · next hlt =>
      split at h
      · next hfits =>
        split at h
        · next memory hmemory =>
          cases h
          exact ⟨hlt, hfits, memory, hmemory, rfl, rfl⟩
        · cases h
      · cases h
    · cases h
  · rintro ⟨hlt, hfits, memory, hmemory, rfl, rfl⟩
    rw [if_pos hlt, if_pos hfits, hmemory]

theorem busRead_eq_ok {v : UInt32} (h : busRead w address m = .ok v m') :
    m.Leads [.busRead w address v] m' ∧ v = m'.memory.load address w := by
  obtain ⟨-, -, memory, -, rfl, rfl⟩ := busRead_eq_ok_iff.1 h
  exact ⟨⟨Array.toList_push, rfl, rfl, rfl, rfl, rfl⟩, rfl⟩

theorem busRead_eq_error {s : Stop} (h : busRead w address m = .error s m') :
    m' = m ∧ (s = .hang ∨ s = .overflow .add) := by
  unfold busRead at h
  split at h
  · split at h
    · split at h
      · cases h
      · cases h
        exact ⟨rfl, .inr rfl⟩
    · cases h
      exact ⟨rfl, .inr rfl⟩
  · cases h
    exact ⟨rfl, .inl rfl⟩

/-- When a write ends, and in what. -/
theorem busWrite_eq_ok_iff : busWrite w address value m = .ok () m' ↔
    w.fits address = true ∧
      ∃ memory, m.device.onWrite m.trace w address (w.truncate value) m.memory = some memory ∧
        m' = { m with
          memory
          trace := m.trace.push (.busWrite w address (w.truncate value)) } := by
  unfold busWrite
  constructor
  · intro h
    split at h
    · next hfits =>
      split at h
      · next memory hmemory =>
        cases h
        exact ⟨hfits, memory, hmemory, rfl⟩
      · cases h
    · cases h
  · rintro ⟨hfits, memory, hmemory, rfl⟩
    rw [if_pos hfits, hmemory]

theorem busWrite_eq_ok (h : busWrite w address value m = .ok () m') :
    m.Leads [.busWrite w address (w.truncate value)] m' := by
  obtain ⟨-, memory, -, rfl⟩ := busWrite_eq_ok_iff.1 h
  exact ⟨Array.toList_push, rfl, rfl, rfl, rfl, rfl⟩

theorem busWrite_eq_error {s : Stop} (h : busWrite w address value m = .error s m') :
    m' = m ∧ s = .overflow .add := by
  unfold busWrite at h
  split at h
  · split at h
    · cases h
    · cases h
      exact ⟨rfl, rfl⟩
  · cases h
    exact ⟨rfl, rfl⟩

end Bus

/-! ### Registers and log -/

theorem Emits.csrRead {csr : Csr} (hp : ∀ v, p (.csrRead csr v)) : Emits p (csrRead csr) :=
  fun m ↦ ⟨_, .record m rfl, by simpa using hp _⟩

theorem Emits.csrWrite {csr : Csr} {value : UInt64} (hp : p (.csrWrite csr value)) :
    Emits p (csrWrite csr value) :=
  fun m ↦ ⟨[.csrWrite csr value], ⟨Array.toList_push, rfl, rfl, rfl, rfl, rfl⟩, by simpa using hp⟩

theorem Emits.csrClear {csr : Csr} {bits : UInt64} (hr : ∀ v, p (.csrRead csr v))
    (hw : ∀ v, p (.csrWrite csr (v &&& ~~~bits))) : Emits p (csrClear csr bits) :=
  .bind (.csrRead hr) fun v ↦ .csrWrite (hw v)

theorem Emits.log {level : Level} {text : String} (hp : p (.log level text)) :
    Emits p (log level text) :=
  fun m ↦ ⟨_, .record m rfl, by simpa using hp⟩

/-! ### Clock -/

/-- When a reading of the clock ends, and in what. -/
theorem now_eq_ok_iff {t : UInt64} : now m = .ok t m' ↔
    m.watchdog.clockReads < m.watchdog.limit ∧
      ∃ counter, m.clock.sample m.trace m.clock.counter = (some t, counter) ∧
        m' = { m with
          clock.counter := counter
          watchdog.clockReads := m.watchdog.clockReads + 1
          trace := m.trace.push (.clockRead t) } := by
  unfold now
  constructor
  · intro h
    split at h
    · next hlt =>
      split at h
      · next hsample =>
        cases h
        exact ⟨hlt, _, hsample, rfl⟩
      · cases h
    · cases h
  · rintro ⟨hlt, counter, hsample, rfl⟩
    rw [if_pos hlt, hsample]

theorem now_eq_ok {t : UInt64} (h : now m = .ok t m') :
    m.Leads [.clockRead t] m' ∧
      m.clock.sample m.trace m.clock.counter = (some t, m'.clock.counter) := by
  obtain ⟨-, counter, hsample, rfl⟩ := now_eq_ok_iff.1 h
  exact ⟨⟨Array.toList_push, rfl, rfl, rfl, rfl, rfl⟩, hsample⟩

theorem now_eq_error {s : Stop} (h : now m = .error s m') :
    m.Leads [] m' ∧ (s = .hang ∨ s = .overflow .add) := by
  unfold now at h
  split at h
  · split at h
    · cases h
    · cases h
      exact ⟨⟨(List.append_nil _).symm, rfl, rfl, rfl, rfl, rfl⟩, .inr rfl⟩
  · cases h
    exact ⟨.refl m, .inl rfl⟩

/-- Reading the clock raises no failure. -/
theorem now_ne_failure {cause : Failure} : now m ≠ .error (.failure cause) m' := by
  intro h
  rcases (now_eq_error h).2 with hs | hs
  · cases hs
  · cases hs

theorem Emits.now (hp : ∀ t, p (.clockRead t)) : Emits p now :=
  .of_runs (fun _ t _ h ↦ ⟨_, (now_eq_ok h).1, by simpa using hp t⟩)
    fun _ _ _ h ↦ ⟨[], (now_eq_error h).1, by simp⟩

/-! ### Scripted conditions -/

section Check

variable {answers : Nat → Bool} {answer : Bool}

/-- When a test of a scripted condition ends, and in what. -/
theorem check_eq_ok_iff : check answers m = .ok answer m' ↔
    m.watchdog.checks < m.watchdog.limit ∧ answer = answers m.watchdog.checks ∧
      m' = { m with watchdog.checks := m.watchdog.checks + 1 } := by
  unfold check
  constructor
  · intro h
    split at h
    · next hlt =>
      cases h
      exact ⟨hlt, rfl, rfl⟩
    · cases h
  · rintro ⟨hlt, rfl, rfl⟩
    rw [if_pos hlt]

/-- A scripted condition leaves nothing behind. -/
theorem check_eq_ok (h : check answers m = .ok answer m') : m.Leads [] m' := by
  obtain ⟨-, -, rfl⟩ := check_eq_ok_iff.1 h
  exact ⟨(List.append_nil _).symm, rfl, rfl, rfl, rfl, rfl⟩

/-- Testing it raises no failure. -/
theorem check_ne_failure {cause : Failure} : check answers m ≠ .error (.failure cause) m' := by
  intro h
  unfold check at h
  split at h
  · cases h
  · cases h

end Check

/-! ### Waits -/

theorem Emits.rounds : Emits p rounds :=
  .of_after_eq fun _ ↦ rfl

theorem Emits.spin {ready : Firmware Bool} (hr : Emits p ready) (n : Nat) :
    Emits p (spin ready n) := by
  induction n with
  | zero => exact .throw _
  | succ n ih => exact .bind hr fun _ ↦ .ite (.pure _) ih

theorem Emits.spinFor {ready : Firmware Bool} (hr : Emits p ready)
    (hc : ∀ t, p (.clockRead t)) (limit start : UInt64) (what : String) (n : Nat) :
    Emits p (spinFor limit start what ready n) := by
  induction n with
  | zero => exact .throw _
  | succ n ih =>
    refine .bind hr fun _ ↦ .ite (.pure _) (.bind (.now hc) fun t ↦ ?_)
    exact .ite (.fail _) ih

/-- A wait emits what its test emits, and readings of the clock. -/
theorem Emits.waitUntil {ready : Firmware Bool} (hr : Emits p ready)
    (hc : ∀ t, p (.clockRead t)) (deadline : Deadline) (what : String) :
    Emits p (waitUntil deadline what ready) := by
  cases deadline with
  | never => exact .bind .rounds fun n ↦ .spin hr n
  | after limit => exact .bind (.now hc) fun start ↦ .bind .rounds fun n ↦ .spinFor hr hc _ _ _ n

theorem Emits.watchFor (hc : ∀ t, p (.clockRead t)) (micros start : UInt64) (n : Nat) :
    Emits p (watchFor micros start n) := by
  induction n with
  | zero => exact .throw _
  | succ n ih => exact .bind (.now hc) fun _ ↦ .ite ih (.pure _)

/-- A delay emits its request, and readings of the clock. -/
theorem Emits.delay {micros : UInt64} (hd : p (.delay micros)) (hc : ∀ t, p (.clockRead t)) :
    Emits p (delay micros) := by
  have hrecord : Emits p (modify fun m ↦ m.record (.delay micros) : Firmware PUnit) :=
    fun m ↦ ⟨_, .record m rfl, by simpa using hd⟩
  have hget : Emits p (get : Firmware Machine) := .of_after_eq fun _ ↦ rfl
  refine .bind hrecord fun _ ↦ .bind hget fun m₀ ↦ ?_
  -- a clock that winds moves its counter, which no event shows
  cases m₀.clock.passing with
  | winds => exact fun m ↦ ⟨[], ⟨(List.append_nil _).symm, rfl, rfl, rfl, rfl, rfl⟩, by simp⟩
  | watched => exact .bind (.now hc) fun _ ↦ .bind .rounds fun n ↦ .watchFor hc _ _ n

end Firmware

/-! ### Register blocks -/

namespace Block

open Firmware

variable {b : Block} {offset : UInt64} {value : UInt32} {m m' : Machine} {p : Event → Prop}

/-- A register is read at its address and in its width. -/
theorem busRead_of_read {v : UInt32} (h : (b.read offset : Firmware UInt32) m = .ok v m') :
    busRead (b.layout.width offset) (b.base + offset) m = .ok v m' := by
  obtain ⟨a, m₁, ha, hread⟩ := bind_eq_ok_iff.1 h
  unfold address exactAdd at ha
  split at ha
  · cases ha
    exact hread
  · cases ha

/-- So is it written. -/
theorem busWrite_of_write (h : (b.write offset value : Firmware Unit) m = .ok () m') :
    busWrite (b.layout.width offset) (b.base + offset) value m = .ok () m' := by
  obtain ⟨a, m₁, ha, hwrite⟩ := bind_eq_ok_iff.1 h
  unfold address exactAdd at ha
  split at ha
  · cases ha
    exact hwrite
  · cases ha

theorem read_eq_ok {v : UInt32} (h : (b.read offset : Firmware UInt32) m = .ok v m') :
    m.Leads [.busRead (b.layout.width offset) (b.base + offset) v] m' ∧
      v = m'.memory.load (b.base + offset) (b.layout.width offset) :=
  busRead_eq_ok (busRead_of_read h)

theorem read_eq_error {s : Stop} (h : (b.read offset : Firmware UInt32) m = .error s m') :
    m' = m ∧ (s = .hang ∨ s = .overflow .add) := by
  unfold read address exactAdd at h
  split at h
  · exact busRead_eq_error h
  · cases h
    exact ⟨rfl, .inr rfl⟩

/-- Reading a register raises no failure. -/
theorem read_ne_failure {cause : Failure} :
    (b.read offset : Firmware UInt32) m ≠ .error (.failure cause) m' := by
  intro h
  rcases (read_eq_error h).2 with hs | hs
  · cases hs
  · cases hs

theorem write_eq_ok (h : (b.write offset value : Firmware Unit) m = .ok () m') :
    m.Leads [.busWrite (b.layout.width offset) (b.base + offset)
      ((b.layout.width offset).truncate value)] m' :=
  busWrite_eq_ok (busWrite_of_write h)

theorem write_eq_error {s : Stop} (h : (b.write offset value : Firmware Unit) m = .error s m') :
    m' = m ∧ s = .overflow .add := by
  unfold write address exactAdd at h
  split at h
  · exact busWrite_eq_error h
  · cases h
    exact ⟨rfl, rfl⟩

/-- Writing a register raises no failure. -/
theorem write_ne_failure {cause : Failure} :
    (b.write offset value : Firmware Unit) m ≠ .error (.failure cause) m' := by
  intro h
  cases (write_eq_error h).2

theorem emits_read
    (hp : ∀ v, p (.busRead (b.layout.width offset) (b.base + offset) v)) :
    Emits p (b.read offset : Firmware UInt32) :=
  .of_runs (fun _ v _ h ↦ ⟨_, (read_eq_ok h).1, by simpa using hp v⟩)
    fun _ _ _ h ↦ ⟨[], by rw [(read_eq_error h).1]; exact .refl _, by simp⟩

theorem emits_write
    (hp : p (.busWrite (b.layout.width offset) (b.base + offset)
      ((b.layout.width offset).truncate value))) :
    Emits p (b.write offset value : Firmware Unit) :=
  .of_runs (fun _ _ _ h ↦ ⟨_, write_eq_ok h, by simpa using hp⟩)
    fun _ _ _ h ↦ ⟨[], by rw [(write_eq_error h).1]; exact .refl _, by simp⟩

end Block

end BringUp
