import BringUp.Proofs.Bus.Memory
import BringUp.Proofs.Machine.Delay
import BringUp.Proofs.Machine.Monitor

/-!
# Scripts

An action without choices of its own makes its accesses and delays in a fixed order, whatever
answers it. The order is a script: a list of steps, in which the values read are left open.

`Firmware.Follows scripts done x` says that `x` goes on from the steps `done` to the end of a
script, or stops at the beginning of one. An action stops only before an access or inside a delay,
so there is nothing to show at the places where it may stop: that what was done so far begins a
script follows from the rest of the action, which could have gone on (`Follows.feasible`).
-/

namespace BringUp

/-- Whether the event is a step: a bus access, or a delay that was asked for. Readings of the clock
and log records lie in between. -/
def Event.isStep : Event → Bool
  | busRead .. | busWrite .. | delay _ => true
  | _ => false

/-- Between two machines these steps were made, and no others. -/
def Machine.Does (m : Machine) (steps : List Event) (m' : Machine) : Prop :=
  ∃ es, m.Leads es m' ∧ es.filter Event.isStep = steps

namespace Firmware

/-- Events between which nothing was done. -/
theorem Emits.does_nil {α : Type} {x : Firmware α} (h : Emits (fun e ↦ e.isStep = false) x)
    (m : Machine) : m.Does [] (x.after m) := by
  obtain ⟨es, hleads, hnone⟩ := h m
  exact ⟨es, hleads, List.filter_eq_nil_iff.2 fun e he ↦ by simp [hnone e he]⟩

/-- However a delay ends, it was asked for. -/
theorem delay_does (micros : UInt64) (m : Machine) :
    m.Does [.delay micros] ((delay micros).after m) := by
  have hrecord : m.Leads [.delay micros] (m.record (.delay micros)) := .record m rfl
  rcases hpassing : m.clock.passing with - | -
  · -- winding the clock leaves no event
    refine ⟨[.delay micros], ?_, rfl⟩
    rw [after, delay_of_winds hpassing]
    exact ⟨hrecord.trace_eq, rfl, rfl, rfl, rfl, rfl⟩
  · have hwait : Emits (fun e ↦ e.isStep = false)
        (do watchFor micros (← now) (← rounds) : Firmware Unit) :=
      .bind (.now fun _ ↦ rfl) fun _ ↦ .bind .rounds fun n ↦ .watchFor (fun _ ↦ rfl) _ _ n
    obtain ⟨es, hleads, hes⟩ := hwait.does_nil (m.record (.delay micros))
    refine ⟨.delay micros :: es, ?_, ?_⟩
    · rw [after, delay_of_watched hpassing]
      exact hrecord.trans hleads
    · rw [List.filter_cons_of_pos rfl, hes]

end Firmware

/-! ### Following a script -/

/-- Remembers the steps. -/
def stepMonitor : Monitor (List Event) where
  next done e := if e.isStep then done ++ [e] else done
  allows _ _ := True

theorem stepMonitor_after (done es : List Event) :
    stepMonitor.after done es = done ++ es.filter Event.isStep := by
  induction es generalizing done with
  | nil => exact (List.append_nil _).symm
  | cons e es ih =>
    show stepMonitor.after (stepMonitor.next done e) es = _
    rw [ih, List.filter_cons]
    show (if e.isStep then done ++ [e] else done) ++ _ = _
    split
    · rw [List.append_assoc, List.singleton_append]
    · rfl

theorem stepMonitor_accepts (done es : List Event) : stepMonitor.Accepts done es := by
  induction es generalizing done with
  | nil => trivial
  | cons e es ih => exact ⟨trivial, ih _⟩

namespace Firmware

variable {α β : Type} {x : Firmware α} {f : α → Firmware β} {scripts : List Event → Prop}
  {done : List Event} {m m' : Machine}

/-- After the steps `done`, the action goes on to the end of a script, or stops inside of one. -/
def Follows (scripts : List Event → Prop) (done : List Event) (x : Firmware α) : Prop :=
  Obeys stepMonitor done x (fun _ all ↦ scripts all) fun done ↦ ∃ rest, scripts (done ++ rest)

namespace Follows

/-- What was done so far begins a script. -/
theorem feasible (h : Follows scripts done x) : ∃ rest, scripts (done ++ rest) := by
  obtain ⟨es, -, -, hpost⟩ := h default
  rw [stepMonitor_after] at hpost
  split at hpost
  · exact ⟨_, hpost⟩
  · obtain ⟨rest, hrest⟩ := hpost
    rw [List.append_assoc] at hrest
    exact ⟨_, hrest⟩

theorem pure {a : α} (h : scripts done) : Follows scripts done (pure a : Firmware α) :=
  Obeys.pure h

/-- One step, and then the rest. The step may depend on an answer of which `p` is known; if it does
not end, it was made or it was not. -/
theorem step {e : α → Event} {p : α → Prop} (a₀ : α) (ha₀ : p a₀)
    (hok : ∀ m a m', x m = .ok a m' → p a ∧ m.Does [e a] m')
    (herr : ∀ m s m', x m = .error s m' → m' = m ∨ m.Does [e a₀] m')
    (hf : ∀ a, p a → Follows scripts (done ++ [e a]) (f a)) : Follows scripts done (x >>= f) := by
  obtain ⟨rest, hrest⟩ := (hf a₀ ha₀).feasible
  refine Obeys.bind (Q := fun a all ↦ p a ∧ all = done ++ [e a]) (.of_runs ?_ ?_) ?_
  · intro m a m' h
    obtain ⟨hp, es, hleads, hes⟩ := hok m a m' h
    exact ⟨es, hleads, stepMonitor_accepts _ _, hp, by rw [stepMonitor_after, hes]⟩
  · intro m s m' h
    obtain rfl | ⟨es, hleads, hes⟩ := herr m s m' h
    · refine ⟨[], .refl _, trivial, e a₀ :: rest, ?_⟩
      rwa [List.append_assoc] at hrest
    · exact ⟨es, hleads, stepMonitor_accepts _ _, rest, by rwa [stepMonitor_after, hes]⟩
  · rintro a _ ⟨hp, rfl⟩
    exact hf a hp

/-- Log records are no steps. -/
theorem log {level : Level} {text : String} {f : Unit → Firmware β}
    (hf : Follows scripts done (f ())) : Follows scripts done (log level text >>= f) :=
  .skip (.log ⟨trivial, rfl⟩) hf.feasible fun _ ↦ hf

/-- A delay is a step, and the readings of the clock that it takes are none. -/
theorem delay {micros : UInt64} {f : Unit → Firmware β}
    (hf : Follows scripts (done ++ [.delay micros]) (f ())) :
    Follows scripts done (delay micros >>= f) := by
  refine step (e := fun _ ↦ .delay micros) (p := fun _ ↦ True) () trivial ?_ ?_ fun _ _ ↦ hf
  · intro m _ m' h
    rw [← after_of_ok h]
    exact ⟨trivial, delay_does micros m⟩
  · intro m s m' h
    rw [← after_of_error h]
    exact .inr (delay_does micros m)

end Follows

end Firmware

namespace Block

open Firmware

variable {α : Type} {b : Block} {offset : UInt64} {value : UInt32} {scripts : List Event → Prop}
  {done : List Event}

theorem follows_write {f : Unit → Firmware α} {e : Event}
    (he : e = .busWrite (b.layout.width offset) (b.base + offset)
      ((b.layout.width offset).truncate value))
    (hf : Follows scripts (done ++ [e]) (f ())) :
    Follows scripts done (b.write offset value >>= f) := by
  refine .step (e := fun _ ↦ e) (p := fun _ ↦ True) () trivial ?_ ?_ fun _ _ ↦ hf
  · intro m _ m' h
    exact ⟨trivial, [e], he ▸ write_eq_ok h, by rw [he]; rfl⟩
  · intro m s m' h
    exact .inl (write_eq_error h).1

/-- A value that is read keeps within the width of its register. -/
theorem follows_read {f : UInt32 → Firmware α}
    (hf : ∀ v, (b.layout.width offset).truncate v = v →
      Follows scripts (done ++ [.busRead (b.layout.width offset) (b.base + offset) v]) (f v)) :
    Follows scripts done (b.read offset >>= f) := by
  refine .step (e := fun v ↦ .busRead (b.layout.width offset) (b.base + offset) v) 0 ?_ ?_ ?_ hf
  · rcases b.layout.width offset with - | - | - <;> rfl
  · intro m v m' h
    obtain ⟨hleads, hv⟩ := read_eq_ok h
    refine ⟨?_, _, hleads, rfl⟩
    rw [hv, Memory.truncate_load]
  · intro m s m' h
    exact .inl (read_eq_error h).1

end Block

end BringUp
