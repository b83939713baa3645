import BringUp.Proofs.Machine.Access

/-!
# Actions on the registers

Some actions reach nothing but the control and status registers, the fence and the log. From a
machine `m` such an action leaves `m.perform es`: the machine with the events `es` appended to the
trace and played into the bank, everything else untouched.

`Firmware.Runs x bank es r` says this of an action `x`: from every machine with that bank it does
`es` and ends as `r`. The bank alone decides, so two machines with the same bank are
indistinguishable to `x`, whatever else they hold and whatever happened on them before. `Runs.bind`
puts runs together. An action that `Completes p` never stops, and all its events satisfy `p`.
-/

namespace BringUp

namespace Machine

/-- The machine after events that need nothing but the registers and the log. -/
def perform (m : Machine) (es : List Event) : Machine :=
  { m with csrs := m.csrs.replay es, trace := m.trace ++ es.toArray }

variable (m : Machine) (es fs : List Event)

@[simp] theorem csrs_perform : (m.perform es).csrs = m.csrs.replay es := rfl

@[simp] theorem perform_nil : m.perform [] = m := by
  simp only [perform, CsrFile.replay_nil, Array.append_empty]

@[simp] theorem perform_perform : (m.perform es).perform fs = m.perform (es ++ fs) := by
  simp only [perform, CsrFile.replay_append, Array.append_assoc, List.append_toArray]

theorem leads_perform : m.Leads es (m.perform es) where
  trace_eq := by simp only [perform, Array.toList_append]
  csrs_eq := rfl
  device_eq := rfl
  sample_eq := rfl
  passing_eq := rfl
  limit_eq := rfl

theorem record_eq_perform {e : Event} (h : e.csrWrite? = none) : m.record e = m.perform [e] := by
  rw [perform, CsrFile.replay_cons, CsrFile.react_of_csrWrite?_eq_none h, CsrFile.replay_nil,
    record, Array.push_eq_append]

/-- How an action ends that has done `es`. -/
def conclude {α : Type} (m : Machine) (es : List Event) :
    Except Stop α → EStateM.Result Stop Machine α
  | .ok a => .ok a (m.perform es)
  | .error s => .error s (m.perform es)

end Machine

namespace Firmware

variable {α β : Type} {x : Firmware α} {f : α → Firmware β} {m : Machine}

/-! ### Runs -/

/-- From every machine with the bank, the action does `es` and ends as `r`. -/
def Runs (x : Firmware α) (bank : CsrFile) (es : List Event) (r : Except Stop α) : Prop :=
  ∀ m : Machine, m.csrs = bank → x m = m.conclude es r

variable {bank : CsrFile} {es fs : List Event}

theorem Runs.apply {r : Except Stop α} (h : Runs x m.csrs es r) : x m = m.conclude es r :=
  h m rfl

theorem runs_pure (a : α) (bank : CsrFile) : Runs (pure a) bank [] (.ok a) := by
  intro m _
  rw [Machine.conclude, m.perform_nil]
  rfl

theorem runs_fail (cause : Failure) (bank : CsrFile) :
    Runs (fail cause : Firmware α) bank [] (.error (.failure cause)) := by
  intro m _
  rw [Machine.conclude, m.perform_nil]
  rfl

theorem runs_csrRead (csr : Csr) (bank : CsrFile) :
    Runs (csrRead csr) bank [.csrRead csr (bank.get csr)] (.ok (bank.get csr)) := by
  rintro m rfl
  rw [csrRead, m.record_eq_perform rfl, Machine.conclude]

theorem runs_csrWrite (csr : Csr) (value : UInt64) (bank : CsrFile) :
    Runs (csrWrite csr value) bank [.csrWrite csr value] (.ok ()) := by
  rintro m rfl
  rw [csrWrite, Machine.conclude, Machine.perform, Array.push_eq_append]
  rfl

theorem runs_fence (bank : CsrFile) : Runs fence bank [.fence] (.ok ()) := by
  rintro m rfl
  rw [fence, m.record_eq_perform rfl, Machine.conclude]

theorem runs_log (level : Level) (text : String) (bank : CsrFile) :
    Runs (log level text) bank [.log level text] (.ok ()) := by
  rintro m rfl
  rw [log, m.record_eq_perform rfl, Machine.conclude]

/-- A sequence does what its first action does, and then what its second one does from there. -/
theorem Runs.bind {a : α} {r : Except Stop β} (hx : Runs x bank es (.ok a))
    (hf : Runs (f a) (bank.replay es) fs r) : Runs (x >>= f) bank (es ++ fs) r := by
  rintro m rfl
  rw [bind_of_ok (hx m rfl), hf (m.perform es) (m.csrs_perform es)]
  cases r with
  | ok b => rw [Machine.conclude, Machine.conclude, m.perform_perform]
  | error s => rw [Machine.conclude, Machine.conclude, m.perform_perform]

/-- The same where the first action is a single event. -/
theorem Runs.bind_cons {a : α} {e : Event} {r : Except Stop β} (hx : Runs x bank [e] (.ok a))
    (hf : Runs (f a) (bank.react e) fs r) : Runs (x >>= f) bank (e :: fs) r :=
  hx.bind hf

theorem Runs.bind_error {s : Stop} (hx : Runs x bank es (.error s)) :
    Runs (x >>= f) bank es (.error s) :=
  fun m hm ↦ bind_of_error (hx m hm)

theorem Runs.attempt_ok {a : α} (hx : Runs x bank es (.ok a)) :
    Runs x.attempt bank es (.ok (.ok a)) := by
  intro m hm
  rw [Firmware.attempt, hx m hm]
  rfl

theorem Runs.attempt_failure {cause : Failure} (hx : Runs x bank es (.error (.failure cause))) :
    Runs x.attempt bank es (.ok (.error cause)) := by
  intro m hm
  rw [Firmware.attempt, hx m hm]
  rfl

/-! ### Actions that never stop -/

/-- From every machine the action ends, and the events it consists of satisfy `p`. -/
def Completes (p : Event → Prop) (x : Firmware α) : Prop :=
  ∀ bank : CsrFile, ∃ a es, Runs x bank es (.ok a) ∧ ∀ e ∈ es, p e

variable {p : Event → Prop}

/-- What an action does to every bank is what it emits. -/
theorem emits_of_runs (h : ∀ bank : CsrFile, ∃ es r, Runs x bank es r ∧ ∀ e ∈ es, p e) :
    Emits p x := by
  intro m
  obtain ⟨es, r, hx, hp⟩ := h m.csrs
  have hafter : x.after m = m.perform es := by
    cases r with
    | ok a => exact after_of_ok hx.apply
    | error s => exact after_of_error hx.apply
  rw [hafter]
  exact ⟨es, m.leads_perform es, hp⟩

theorem Completes.emits (h : Completes p x) : Emits p x :=
  emits_of_runs fun bank ↦ by
    obtain ⟨a, es, hx, hp⟩ := h bank
    exact ⟨es, .ok a, hx, hp⟩

theorem Completes.pure (a : α) : Completes p (pure a : Firmware α) :=
  fun bank ↦ ⟨a, [], runs_pure a bank, by simp⟩

theorem Completes.csrRead {csr : Csr} (hp : ∀ v, p (.csrRead csr v)) : Completes p (csrRead csr) :=
  fun bank ↦ ⟨_, _, runs_csrRead csr bank, by simpa using hp _⟩

theorem Completes.csrWrite {csr : Csr} {value : UInt64} (hp : p (.csrWrite csr value)) :
    Completes p (csrWrite csr value) :=
  fun bank ↦ ⟨_, _, runs_csrWrite csr value bank, by simpa using hp⟩

theorem Completes.fence (hp : p .fence) : Completes p fence :=
  fun bank ↦ ⟨_, _, runs_fence bank, by simpa using hp⟩

theorem Completes.log {level : Level} {text : String} (hp : p (.log level text)) :
    Completes p (log level text) :=
  fun bank ↦ ⟨_, _, runs_log level text bank, by simpa using hp⟩

theorem Completes.bind (hx : Completes p x) (hf : ∀ a, Completes p (f a)) :
    Completes p (x >>= f) := by
  intro bank
  obtain ⟨a, es, hes, hp⟩ := hx bank
  obtain ⟨b, fs, hfs, hq⟩ := hf a (bank.replay es)
  exact ⟨b, es ++ fs, hes.bind hfs, fun e he ↦ (List.mem_append.1 he).elim (hp e) (hq e)⟩

theorem Completes.ite {c : Prop} [Decidable c] {y : Firmware α} (hx : Completes p x)
    (hy : Completes p y) : Completes p (if c then x else y) := by
  split
  · exact hx
  · exact hy

theorem Completes.csrSet {csr : Csr} {bits : UInt64} (hr : ∀ v, p (.csrRead csr v))
    (hw : ∀ v, p (.csrWrite csr v)) : Completes p (csrSet csr bits) :=
  .bind (.csrRead hr) fun _ ↦ .csrWrite (hw _)

theorem Completes.csrClear {csr : Csr} {bits : UInt64} (hr : ∀ v, p (.csrRead csr v))
    (hw : ∀ v, p (.csrWrite csr v)) : Completes p (csrClear csr bits) :=
  .bind (.csrRead hr) fun _ ↦ .csrWrite (hw _)

end Firmware

end BringUp
