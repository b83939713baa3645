import BringUp.Proofs.Machine.Run

/-!
# Sessions

A session is a run of requests on a state that firmware keeps, such as a controller or a platform.
Each request is carried out on the state and the machine that it finds, and leaves a new state; what
became of it is a `Step`. Between requests the machine may change in every way but its registers:
the device may act, the clock may run, the watchdog may be rearmed and the trace cleared.

The steps of a session are the induction data: `Session.call` adds the latest one. `Session.split`
cuts a session at any point between two requests.
-/

namespace BringUp

open Firmware

variable {ω ρ α : Type}

/-! ### Requests -/

/-- Carries out an action on behalf of a state. Gives how that ended and the state afterwards; an
action that stops leaves the state as it was. -/
def Firmware.settling (x : ω) (action : Firmware (α × ω)) : Firmware (Except Stop α × ω) := do
  match ← observe action with
  | .ok (a, x) => return (.ok a, x)
  | .error stop => return (.error stop, x)

/-- A settled action ends as the action did: with its value and state, or with the stop and the
state as it was. -/
theorem Firmware.settling_eq_ok {x x' : ω} {action : Firmware (α × ω)} {ending : Except Stop α}
    {m m' : Machine} (h : settling x action m = .ok (ending, x') m') :
    (∃ a, ending = .ok a ∧ action m = .ok (a, x') m') ∨
      ∃ stop, ending = .error stop ∧ x' = x ∧ action m = .error stop m' := by
  obtain ⟨outcome, m₁, hobserve, hrest⟩ := bind_eq_ok_iff.1 h
  unfold observe at hobserve
  split at hobserve
  · next hrun =>
    cases hobserve
    cases hrest
    exact .inl ⟨_, rfl, hrun⟩
  · next hrun =>
    cases hobserve
    cases hrest
    exact .inr ⟨_, rfl, rfl, hrun⟩

theorem Firmware.settling_of_ok {x x' : ω} {action : Firmware (α × ω)} {a : α} {m m' : Machine}
    (h : action m = .ok (a, x') m') : settling x action m = .ok (.ok a, x') m' := by
  have hobserve : observe action m = .ok (.ok (a, x')) m' := by rw [observe, h]
  exact bind_of_ok hobserve

theorem Firmware.Emits.settling {p : Event → Prop} {x : ω} {action : Firmware (α × ω)}
    (h : Emits p action) : Emits p (settling x action) := by
  refine .bind (.observe h) fun outcome ↦ ?_
  cases outcome with
  | ok _ => exact .pure _
  | error _ => exact .pure _

/-! ### Steps -/

/-- A request and what became of it. -/
structure Step (ω ρ α : Type) where
  /-- What was asked for. -/
  request : ρ
  /-- The state that the request found. -/
  before : ω
  /-- The machine that the request found. -/
  machine : Machine
  /-- How it ended. -/
  ending : Except Stop α
  /-- The state that it left. -/
  after : ω
  /-- What was done. -/
  events : List Event

/-- The step is what became of the request on the state and the machine that it found, and left the
machine `m'`. -/
structure Step.Made (make : ω → ρ → Firmware (Except Stop α × ω)) (s : Step ω ρ α) (m' : Machine) :
    Prop where
  /-- The request was carried out. -/
  run_eq : make s.before s.request s.machine = .ok (s.ending, s.after) m'
  /-- The trace grew by what was done. -/
  trace_eq : m'.trace.toList = s.machine.trace.toList ++ s.events

/-- The request was answered: it ended, or failed with a cause that its caller was told. -/
def Step.Returned (s : Step ω ρ α) : Prop :=
  match s.ending with
  | .ok _ | .error (.failure _) => True
  | .error _ => False

/-- A stop that was an answer is a failure. -/
theorem Step.Returned.of_error {s : Step ω ρ α} (h : s.Returned) {stop : Stop}
    (hending : s.ending = .error stop) : ∃ cause, stop = .failure cause := by
  rw [Step.Returned, hending] at h
  cases stop with
  | failure cause => exact ⟨cause, rfl⟩
  | _ => exact h.elim

/-- What was done in some steps. -/
def history (steps : List (Step ω ρ α)) : List Event :=
  steps.flatMap Step.events

@[simp] theorem history_nil : history ([] : List (Step ω ρ α)) = [] := rfl

@[simp] theorem history_append (steps steps' : List (Step ω ρ α)) :
    history (steps ++ steps') = history steps ++ history steps' :=
  List.flatMap_append

@[simp] theorem history_singleton (s : Step ω ρ α) : history [s] = s.events :=
  List.append_nil _

variable {make : ω → ρ → Firmware (Except Stop α × ω)} {s : Step ω ρ α} {m' : Machine}

/-- What led from the machine that the request found to the one that it left are the events. -/
theorem Step.Made.eq_events (h : s.Made make m') {es : List Event} (hes : s.machine.Leads es m') :
    es = s.events :=
  List.append_cancel_left (hes.trace_eq.symm.trans h.trace_eq)

/-- The events of a step are those that carrying out the request emits. -/
theorem Step.Made.leads {p : Event → Prop} (h : s.Made make m')
    (hx : Emits p (make s.before s.request)) :
    s.machine.Leads s.events m' ∧ ∀ e ∈ s.events, p e := by
  obtain ⟨es, hes, hp⟩ := hx.of_ok h.run_eq
  obtain rfl := h.eq_events hes
  exact ⟨hes, hp⟩

/-- A request that leaves the machine alone does nothing. -/
theorem Step.Made.events_eq_nil (h : s.Made make m') (hm : m' = s.machine) : s.events = [] := by
  have htrace := h.trace_eq
  rw [hm] at htrace
  exact List.self_eq_append_right.1 htrace

/-! ### Sessions -/

/-- Requests on a state that is `x₀` to begin with, over registers that hold `bank`: the steps taken
so far, the state and the machine. -/
inductive Session (make : ω → ρ → Firmware (Except Stop α × ω)) (x₀ : ω) (bank : CsrFile) :
    List (Step ω ρ α) → ω → Machine → Prop
  /-- Nothing was asked for yet. -/
  | start {m : Machine} (h : m.csrs = bank) : Session make x₀ bank [] x₀ m
  /-- Something else happened that wrote no register. -/
  | elsewhere {steps : List (Step ω ρ α)} {x : ω} {m m' : Machine}
      (h : Session make x₀ bank steps x m) (hcsrs : m'.csrs = m.csrs) :
      Session make x₀ bank steps x m'
  /-- A request was made. -/
  | call {steps : List (Step ω ρ α)} {s : Step ω ρ α} {m' : Machine}
      (h : Session make x₀ bank steps s.before s.machine) (hmade : s.Made make m') :
      Session make x₀ bank (steps ++ [s]) s.after m'

namespace Session

variable {x₀ x : ω} {bank : CsrFile} {steps : List (Step ω ρ α)} {m : Machine}

/-- A request can be made at any point. -/
theorem extend (h : Session make x₀ bank steps x m) (request : ρ) {p : Event → Prop}
    (hx : Emits p (make x request)) {ending : Except Stop α} {x' : ω}
    (hrun : make x request m = .ok (ending, x') m') :
    ∃ es, Session make x₀ bank (steps ++ [⟨request, x, m, ending, x', es⟩]) x' m' := by
  obtain ⟨es, hes, -⟩ := hx.of_ok hrun
  let s : Step ω ρ α := ⟨request, x, m, ending, x', es⟩
  exact ⟨es, .call (s := s) h ⟨hrun, hes.trace_eq⟩⟩

/-- A session up to a point and one from there on. -/
theorem split {steps' : List (Step ω ρ α)} (h : Session make x₀ bank (steps ++ steps') x m) :
    ∃ x₁ m₁, Session make x₀ bank steps x₁ m₁ ∧ Session make x₁ m₁.csrs steps' x m := by
  generalize hall : steps ++ steps' = all at h
  induction h generalizing steps' with
  | start hm =>
    obtain ⟨rfl, rfl⟩ := List.append_eq_nil_iff.1 hall
    exact ⟨x₀, _, .start hm, .start rfl⟩
  | elsewhere _ hcsrs ih =>
    obtain ⟨x₁, m₁, hfirst, hrest⟩ := ih hall
    exact ⟨x₁, m₁, hfirst, hrest.elsewhere hcsrs⟩
  | @call before s m' h hmade ih =>
    -- the latest step belongs to the second part, unless that is empty
    rcases List.eq_nil_or_concat steps' with rfl | ⟨front, last, rfl⟩
    · rw [List.append_nil] at hall
      rw [hall]
      exact ⟨s.after, m', .call h hmade, .start rfl⟩
    · rw [List.concat_eq_append, ← List.append_assoc] at hall
      obtain ⟨hfront, hlast⟩ := List.append_inj' hall rfl
      obtain rfl : last = s := List.cons.inj hlast |>.1
      obtain ⟨x₁, m₁, hfirst, hrest⟩ := ih hfront
      rw [List.concat_eq_append]
      exact ⟨x₁, m₁, hfirst, .call hrest hmade⟩

/-- A session of no steps leaves the state as it was. -/
theorem eq_of_nil (h : Session make x₀ bank [] x m) : x = x₀ ∧ m.csrs = bank := by
  generalize hnil : ([] : List (Step ω ρ α)) = steps at h
  induction h with
  | start hm => exact ⟨rfl, hm⟩
  | elsewhere _ hcsrs ih =>
    obtain ⟨hx, hbank⟩ := ih hnil
    exact ⟨hx, hcsrs.trans hbank⟩
  | call => exact absurd hnil.symm (List.append_ne_nil_of_right_ne_nil _ (List.cons_ne_nil _ _))

/-- A session of one step is that step, and whatever happened around it. -/
theorem of_singleton (h : Session make x₀ bank [s] x m) :
    s.before = x₀ ∧ s.machine.csrs = bank ∧ s.after = x ∧ ∃ m', s.Made make m' ∧ m.csrs = m'.csrs := by
  generalize hone : [s] = steps at h
  induction h with
  | start => cases hone
  | elsewhere _ hcsrs ih =>
    obtain ⟨hbefore, hbank, hafter, m', hmade, hm'⟩ := ih hone
    exact ⟨hbefore, hbank, hafter, m', hmade, hcsrs.trans hm'⟩
  | @call steps s' m' h hmade =>
    obtain ⟨hnil, hlast⟩ := List.append_inj' (show [] ++ [s] = steps ++ [s'] from hone) rfl
    obtain rfl : s = s' := List.cons.inj hlast |>.1
    rw [← hnil] at h
    obtain ⟨hbefore, hbank⟩ := h.eq_of_nil
    exact ⟨hbefore, hbank, rfl, m', hmade, rfl⟩

/-- The first step of a session, and the session after it. -/
theorem of_cons (h : Session make x₀ bank (s :: steps) x m) :
    ∃ m', s.before = x₀ ∧ s.machine.csrs = bank ∧ s.Made make m' ∧
      Session make s.after m'.csrs steps x m := by
  have hall : Session make x₀ bank ([s] ++ steps) x m := h
  obtain ⟨x₁, m₁, hfirst, hrest⟩ := hall.split
  obtain ⟨hbefore, hbank, rfl, m', hmade, hcsrs⟩ := hfirst.of_singleton
  rw [hcsrs] at hrest
  exact ⟨m', hbefore, hbank, hmade, hrest⟩

/-- The registers are what the writes in the steps made of them. -/
theorem csrs_eq {p : Event → Prop} (h : Session make x₀ bank steps x m)
    (hx : ∀ x request, Emits p (make x request)) : m.csrs = bank.replay (history steps) := by
  induction h with
  | start hm => exact hm
  | elsewhere _ hcsrs ih => exact hcsrs.trans ih
  | call _ hmade ih =>
    rw [history_append, history_singleton, CsrFile.replay_append, ← ih]
    exact (hmade.leads (hx _ _)).1.csrs_eq

/-- Every step of a session was made on a state that an earlier part of the session left. -/
theorem made {steps' : List (Step ω ρ α)} (h : Session make x₀ bank (steps ++ s :: steps') x m) :
    ∃ m', Session make x₀ bank steps s.before s.machine ∧ s.Made make m' ∧
      Session make s.after m'.csrs steps' x m := by
  obtain ⟨x₁, m₁, hfirst, hrest⟩ := h.split
  obtain ⟨m', hbefore, hbank, hmade, hlater⟩ := hrest.of_cons
  rw [hbefore]
  exact ⟨m', hfirst.elsewhere hbank, hmade, hlater⟩

end Session

end BringUp
