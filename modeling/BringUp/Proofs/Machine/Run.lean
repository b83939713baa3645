import BringUp.Wait

/-!
# Runs of actions

What every action does to the machine, however it ends.

An action reaches the machine through a few primitives only, so whatever it does can be read off
the events that it leaves behind: the trace grows by them, the register bank is changed by the
writes among them and by nothing else, and the device, the way the clock runs and the limit of the
watchdog stay as they are. That is `Machine.Leads`. An action `Emits p` if it leads from every
machine to the one it leaves by events that all satisfy `p`; the property is closed under
sequencing, catching and repeating, so it is proved of an action piece by piece.

`Machine.Leads` says nothing about memory, the counter of the clock or the counts of the watchdog:
these may change without a trace.
-/

namespace BringUp

/-! ### The register bank after some events -/

/-- What an event makes of the bank. -/
def CsrFile.react (bank : CsrFile) : Event → CsrFile
  | .csrWrite csr value => bank.set csr value
  | _ => bank

/-- What events make of the bank, in order. -/
def CsrFile.replay (bank : CsrFile) (es : List Event) : CsrFile :=
  es.foldl react bank

namespace CsrFile

@[simp] theorem replay_nil (bank : CsrFile) : bank.replay [] = bank := rfl

@[simp] theorem replay_cons (bank : CsrFile) (e : Event) (es : List Event) :
    bank.replay (e :: es) = (bank.react e).replay es := rfl

theorem replay_append (bank : CsrFile) (es fs : List Event) :
    bank.replay (es ++ fs) = (bank.replay es).replay fs :=
  List.foldl_append

/-- An event that is no register write leaves the bank alone. -/
theorem react_of_csrWrite?_eq_none {e : Event} (h : e.csrWrite? = none) (bank : CsrFile) :
    bank.react e = bank := by
  cases e with
  | csrWrite csr value => exact absurd h (by simp [Event.csrWrite?])
  | _ => rfl

/-- So do any number of them. -/
theorem replay_of_no_csrWrite {es : List Event} (h : ∀ e ∈ es, e.csrWrite? = none)
    (bank : CsrFile) : bank.replay es = bank := by
  induction es with
  | nil => rfl
  | cons e es ih =>
    rw [replay_cons, react_of_csrWrite?_eq_none (h e List.mem_cons_self),
      ih fun e' he' ↦ h e' (List.mem_cons_of_mem e he')]

/-- A register that none of the events writes keeps its value. -/
theorem get_replay_of_not_written {csr : Csr} {es : List Event}
    (h : ∀ e ∈ es, ∀ w ∈ e.csrWrite?, w.1 ≠ csr) (bank : CsrFile) :
    (bank.replay es).get csr = bank.get csr := by
  induction es generalizing bank with
  | nil => rfl
  | cons e es ih =>
    rw [replay_cons, ih fun e' he' ↦ h e' (List.mem_cons_of_mem e he')]
    cases e with
    | csrWrite written value =>
      exact get_set_of_ne (h _ List.mem_cons_self (written, value) rfl).symm bank value
    | _ => rfl

end CsrFile

/-! ### From one machine to a later one -/

namespace Machine

/-- `m'` is a machine that `m` became while `es` happened. -/
structure Leads (m : Machine) (es : List Event) (m' : Machine) : Prop where
  /-- The trace grew by the events. -/
  trace_eq : m'.trace.toList = m.trace.toList ++ es
  /-- The bank was changed by the register writes among them. -/
  csrs_eq : m'.csrs = m.csrs.replay es
  /-- The device is the same. -/
  device_eq : m'.device = m.device
  /-- The clock runs in the same way. -/
  sample_eq : m'.clock.sample = m.clock.sample
  /-- Delays pass in the same way. -/
  passing_eq : m'.clock.passing = m.clock.passing
  /-- The watchdog allows as much. -/
  limit_eq : m'.watchdog.limit = m.watchdog.limit

theorem Leads.refl (m : Machine) : m.Leads [] m :=
  ⟨(List.append_nil _).symm, rfl, rfl, rfl, rfl, rfl⟩

theorem Leads.trans {m m₁ m₂ : Machine} {es fs : List Event} (h : m.Leads es m₁)
    (h' : m₁.Leads fs m₂) : m.Leads (es ++ fs) m₂ where
  trace_eq := by rw [h'.trace_eq, h.trace_eq, List.append_assoc]
  csrs_eq := by rw [h'.csrs_eq, h.csrs_eq, CsrFile.replay_append]
  device_eq := h'.device_eq.trans h.device_eq
  sample_eq := h'.sample_eq.trans h.sample_eq
  passing_eq := h'.passing_eq.trans h.passing_eq
  limit_eq := h'.limit_eq.trans h.limit_eq

theorem Leads.record (m : Machine) {e : Event} (h : e.csrWrite? = none) :
    m.Leads [e] (m.record e) where
  trace_eq := Array.toList_push
  csrs_eq := (CsrFile.react_of_csrWrite?_eq_none h _).symm
  device_eq := rfl
  sample_eq := rfl
  passing_eq := rfl
  limit_eq := rfl

end Machine

/-! ### How actions run -/

namespace Firmware

variable {α β : Type} {x : Firmware α} {f : α → Firmware β} {m m' : Machine}

theorem bind_of_ok {a : α} {m₁ : Machine} (h : x m = .ok a m₁) : (x >>= f) m = f a m₁ := by
  show EStateM.bind x f m = f a m₁
  rw [EStateM.bind, h]

theorem bind_of_error {s : Stop} {m₁ : Machine} (h : x m = .error s m₁) :
    (x >>= f) m = .error s m₁ := by
  show EStateM.bind x f m = .error s m₁
  rw [EStateM.bind, h]

theorem pure_eq_ok_iff {a b : α} : (pure a : Firmware α) m = .ok b m' ↔ a = b ∧ m = m' :=
  ⟨EStateM.Result.ok.inj, by rintro ⟨rfl, rfl⟩; rfl⟩

@[simp] theorem liftExcept_ok_bind (a : α) (f : α → Firmware β) :
    (liftExcept (.ok a : Except Stop α) >>= f) = f a := rfl

/-- A sequence ends if its first action and then its second one does. -/
theorem bind_eq_ok_iff {b : β} :
    (x >>= f) m = .ok b m' ↔ ∃ a m₁, x m = .ok a m₁ ∧ f a m₁ = .ok b m' := by
  rcases h : x m with ⟨a, m₁⟩ | ⟨s, m₁⟩
  · rw [bind_of_ok h]
    exact ⟨fun hf ↦ ⟨a, m₁, rfl, hf⟩, by rintro ⟨_, _, ⟨⟩, hf⟩; exact hf⟩
  · rw [bind_of_error h]
    exact ⟨by rintro ⟨⟩, by rintro ⟨_, _, ⟨⟩, _⟩⟩

/-- A sequence stops if its first action stops, or ends and the second one stops. -/
theorem bind_eq_error_iff {s : Stop} :
    (x >>= f) m = .error s m' ↔
      x m = .error s m' ∨ ∃ a m₁, x m = .ok a m₁ ∧ f a m₁ = .error s m' := by
  rcases h : x m with ⟨a, m₁⟩ | ⟨s₁, m₁⟩
  · rw [bind_of_ok h]
    constructor
    · exact fun hf ↦ .inr ⟨a, m₁, rfl, hf⟩
    · rintro (hx | ⟨_, _, ⟨⟩, hf⟩)
      · cases hx
      · exact hf
  · rw [bind_of_error h]
    constructor
    · rintro ⟨⟩
      exact .inl rfl
    · rintro (⟨⟨⟩⟩ | ⟨_, _, ⟨⟩, _⟩)
      rfl

/-- What was lifted into a sequence that ended is a value. -/
theorem liftExcept_bind_eq_ok {r : Except Stop α} {b : β}
    (h : (liftExcept r >>= f) m = .ok b m') : ∃ a, r = .ok a ∧ f a m = .ok b m' := by
  cases r with
  | ok a => exact ⟨a, rfl, h⟩
  | error _ => cases h

/-- Whether an action ends, with a value and a machine that pass a test. A closed action can be run
to find out. -/
def endsWith (test : α → Machine → Bool) (x : Firmware α) (m : Machine) : Bool :=
  match x m with
  | .ok a m' => test a m'
  | .error _ _ => false

theorem endsWith_iff {test : α → Machine → Bool} :
    x.endsWith test m = true ↔ ∃ a m', x m = .ok a m' ∧ test a m' = true := by
  rw [endsWith]
  rcases h : x m with ⟨a, m'⟩ | ⟨s, m'⟩
  · exact ⟨fun htest ↦ ⟨a, m', rfl, htest⟩, by rintro ⟨_, _, ⟨⟩, htest⟩; exact htest⟩
  · exact ⟨by rintro ⟨⟩, by rintro ⟨_, _, ⟨⟩, _⟩⟩

/-- The machine that an action leaves, whether it ends or stops. -/
def after (x : Firmware α) (m : Machine) : Machine :=
  match x m with
  | .ok _ m' => m'
  | .error _ m' => m'

theorem after_of_ok {a : α} (h : x m = .ok a m') : x.after m = m' := by
  rw [after, h]

theorem after_of_error {s : Stop} (h : x m = .error s m') : x.after m = m' := by
  rw [after, h]

/-! ### What an action leaves behind -/

/-- From every machine the action leads to the one it leaves, by events that satisfy `p`. -/
def Emits (p : Event → Prop) (x : Firmware α) : Prop :=
  ∀ m : Machine, ∃ es, m.Leads es (x.after m) ∧ ∀ e ∈ es, p e

variable {p : Event → Prop}

theorem Emits.of_ok (h : Emits p x) {a : α} (hx : x m = .ok a m') :
    ∃ es, m.Leads es m' ∧ ∀ e ∈ es, p e := by
  rw [← after_of_ok hx]
  exact h m

theorem Emits.of_error (h : Emits p x) {s : Stop} (hx : x m = .error s m') :
    ∃ es, m.Leads es m' ∧ ∀ e ∈ es, p e := by
  rw [← after_of_error hx]
  exact h m

/-- An action that leaves the machine alone emits nothing. -/
theorem Emits.of_after_eq (h : ∀ m : Machine, x.after m = m) : Emits p x := fun m ↦
  ⟨[], by rw [h m]; exact .refl m, by simp⟩

theorem Emits.mono {q : Event → Prop} (h : Emits p x) (hpq : ∀ e, p e → q e) : Emits q x := by
  intro m
  obtain ⟨es, hes, hp⟩ := h m
  exact ⟨es, hes, fun e he ↦ hpq e (hp e he)⟩

theorem Emits.pure (a : α) : Emits p (pure a : Firmware α) :=
  .of_after_eq fun _ ↦ rfl

theorem Emits.throw (s : Stop) : Emits p (throw s : Firmware α) :=
  .of_after_eq fun _ ↦ rfl

theorem Emits.liftExcept (a : Except Stop α) : Emits p (liftExcept a : Firmware α) := by
  cases a with
  | ok a => exact .pure a
  | error s => exact .throw s

theorem Emits.bind (hx : Emits p x) (hf : ∀ a, Emits p (f a)) : Emits p (x >>= f) := by
  intro m
  obtain ⟨es, hes, hp⟩ := hx m
  rcases h : x m with ⟨a, m₁⟩ | ⟨s, m₁⟩
  · -- the second action starts from the machine that the first one leaves
    obtain ⟨fs, hfs, hq⟩ := hf a m₁
    rw [after_of_ok h] at hes
    rw [after, bind_of_ok h]
    exact ⟨es ++ fs, hes.trans hfs, fun e he ↦ (List.mem_append.1 he).elim (hp e) (hq e)⟩
  · rw [after_of_error h] at hes
    rw [after, bind_of_error h]
    exact ⟨es, hes, hp⟩

theorem Emits.ite {c : Prop} [Decidable c] {y : Firmware α} (hx : Emits p x) (hy : Emits p y) :
    Emits p (if c then x else y) := by
  split
  · exact hx
  · exact hy

theorem after_attempt (x : Firmware α) (m : Machine) : x.attempt.after m = x.after m := by
  rcases h : x m with ⟨a, m₁⟩ | ⟨_ | _ | _, m₁⟩ <;> simp only [after, attempt, h]

theorem after_observe (x : Firmware α) (m : Machine) : x.observe.after m = x.after m := by
  rcases h : x m with ⟨a, m₁⟩ | ⟨s, m₁⟩ <;> simp only [after, observe, h]

/-- Catching failures gives the result or the cause as a value. -/
theorem attempt_eq_ok {r : Except Failure α} (h : x.attempt m = .ok r m') :
    (∃ a, r = .ok a ∧ x m = .ok a m') ∨
      ∃ cause, r = .error cause ∧ x m = .error (.failure cause) m' := by
  unfold Firmware.attempt at h
  split at h
  · next a m₁ hx =>
    cases h
    exact .inl ⟨a, rfl, hx⟩
  · next cause m₁ hx =>
    cases h
    exact .inr ⟨cause, rfl, hx⟩
  · cases h

/-- A sequence whose failures are caught ends if its first action does, and then the second one with
its failures caught, or if the first action fails. -/
theorem attempt_bind_eq_ok {r : Except Failure β} (h : (x >>= f).attempt m = .ok r m') :
    (∃ a m₁, x m = .ok a m₁ ∧ (f a).attempt m₁ = .ok r m') ∨
      ∃ cause, r = .error cause ∧ x m = .error (.failure cause) m' := by
  rcases attempt_eq_ok h with ⟨b, rfl, hrun⟩ | ⟨cause, rfl, hrun⟩
  · obtain ⟨a, m₁, hx, hf⟩ := bind_eq_ok_iff.1 hrun
    exact .inl ⟨a, m₁, hx, by rw [attempt, hf]⟩
  · rcases bind_eq_error_iff.1 hrun with hx | ⟨a, m₁, hx, hf⟩
    · exact .inr ⟨cause, rfl, hx⟩
    · exact .inl ⟨a, m₁, hx, by rw [attempt, hf]⟩

/-- What goes through is no failure. -/
theorem attempt_eq_error {s : Stop} (h : x.attempt m = .error s m') :
    (∀ cause, s ≠ .failure cause) ∧ x m = .error s m' := by
  unfold Firmware.attempt at h
  split at h
  · cases h
  · cases h
  · next stop _ hne hx =>
    cases h
    exact ⟨fun cause hs ↦ hne cause hs, hx⟩

/-- No failure is left once failures are caught. -/
theorem attempt_ne_failure {cause : Failure} : x.attempt m ≠ .error (.failure cause) m' :=
  fun h ↦ (attempt_eq_error h).1 cause rfl

theorem Emits.attempt (h : Emits p x) : Emits p x.attempt := fun m ↦ by
  rw [after_attempt]
  exact h m

theorem Emits.observe (h : Emits p x) : Emits p x.observe := fun m ↦ by
  rw [after_observe]
  exact h m

theorem Emits.fail (cause : Failure) : Emits p (fail cause : Firmware α) :=
  .throw _

end Firmware

end BringUp
