import BringUp.Proofs.Machine.Failing
import BringUp.Proofs.Serial.Controller

/-!
# How an attempt to bring a controller up ends

An attempt fails only where clock, reset or pins fail: the controller's own accesses do not. So a
failed attempt stopped at clock or reset, before the controller was touched, or at the pins, with
the rate programmed (`bringUp_eq_failure_cases`). One that succeeded had clock and reset first and
switched transmitter and receiver on last, right after the pins were routed (`bringUp_eq_ok`).
-/

namespace BringUp.Serial.Controller

open Firmware

variable {ctrl ctrl' : Controller} {power : Power} {routePins : Firmware Unit}
  {stage : Stage} {rest : List Stage} {phase phase' : Phase} {cause : Failure} {m m' : Machine}

/-! ### Stages -/

/-- The first stage ends and the others are done, or it stops and they are not. -/
theorem runStages_cons_eq_ok {r : Except Stop Unit × Phase}
    (h : runStages phase (stage :: rest) m = .ok r m') :
    (∃ m₁, stage.action m = .ok () m₁ ∧ runStages stage.reached rest m₁ = .ok r m') ∨
      ∃ stop, stage.action m = .error stop m' ∧ r = (.error stop, phase) := by
  obtain ⟨outcome, m₁, hobserve, hrest⟩ := bind_eq_ok_iff.1 h
  unfold observe at hobserve
  split at hobserve
  · next hrun =>
    cases hobserve
    exact .inl ⟨m₁, hrun, hrest⟩
  · next stop _ hrun =>
    cases hobserve
    cases hrest
    exact .inr ⟨stop, hrun, rfl⟩

/-- Whatever stops a stage is told, so that stages always end. -/
theorem runStages_ends (phase : Phase) (stages : List Stage) (m : Machine) :
    ∃ r m', runStages phase stages m = .ok r m' := by
  induction stages generalizing phase m with
  | nil => exact ⟨_, _, rfl⟩
  | cons stage rest ih =>
    rcases h : stage.action m with ⟨_, m₁⟩ | ⟨stop, m₁⟩
    · have hobserve : observe stage.action m = .ok (.ok ()) m₁ := by rw [observe, h]
      obtain ⟨r, m', hrest⟩ := ih stage.reached m₁
      exact ⟨r, m', (bind_of_ok hobserve).trans hrest⟩
    · have hobserve : observe stage.action m = .ok (.error stop) m₁ := by rw [observe, h]
      exact ⟨_, m₁, bind_of_ok hobserve⟩

theorem unfailing_frame : Unfailing ctrl.frame := by
  refine .bind (ctrl.block.failsWith_read _) fun _ ↦ .bind (ctrl.block.failsWith_write _ _) fun _ ↦ ?_
  refine .bind (ctrl.block.failsWith_read _) fun _ ↦ .bind (ctrl.block.failsWith_write _ _) fun _ ↦ ?_
  exact .bind (ctrl.block.failsWith_write _ _) fun _ ↦ ctrl.block.failsWith_write _ _

theorem unfailing_setRate : Unfailing ctrl.setRate := by
  refine .bind (ctrl.block.failsWith_read _) fun old ↦ ?_
  refine .bind (ctrl.block.failsWith_write _ _) fun _ ↦ ?_
  refine .bind (ctrl.block.failsWith_write _ _) fun _ ↦ .ite ?_ (.log _ _)
  refine .bind (ctrl.block.failsWith_write _ _) fun _ ↦ ?_
  exact .bind (ctrl.block.failsWith_write _ _) fun _ ↦ .log _ _

theorem unfailing_enable (hpins : Unfailing routePins) : Unfailing (ctrl.enable routePins) := by
  refine .bind unfailing_setRate fun _ ↦ .bind (.delay _) fun _ ↦ ?_
  refine .bind (ctrl.block.failsWith_write _ _) fun _ ↦ ?_
  exact .bind hpins fun _ ↦ ctrl.block.failsWith_write _ _

/-! ### Attempts -/

/-- How an attempt ends is how its stages end. -/
theorem bringUp_eq_ok_iff (hne : ctrl.phase ≠ .enabled) {outcome : Except Stop Unit} :
    ctrl.bringUp power routePins m = .ok (outcome, ctrl') m' ↔
      ctrl' = { ctrl with phase := ctrl'.phase } ∧
        runStages ctrl.phase (ctrl.stages power routePins) m = .ok (outcome, ctrl'.phase) m' := by
  rw [bringUp, if_neg hne]
  constructor
  · intro h
    obtain ⟨r, m₁, hstages, hpure⟩ := bind_eq_ok_iff.1 h
    have hresult : (r.1, { ctrl with phase := r.2 }) = (outcome, ctrl') ∧ m₁ = m' :=
      EStateM.Result.ok.inj hpure
    obtain ⟨hpair, rfl⟩ := hresult
    obtain ⟨rfl, rfl⟩ := Prod.mk.inj hpair
    exact ⟨rfl, hstages⟩
  · rintro ⟨hctrl, hstages⟩
    rw [hctrl]
    exact bind_of_ok hstages

theorem bringUp_ends (hne : ctrl.phase ≠ .enabled) (power : Power) (routePins : Firmware Unit)
    (m : Machine) : ∃ r m', ctrl.bringUp power routePins m = .ok r m' := by
  obtain ⟨r, m', hstages⟩ := runStages_ends ctrl.phase (ctrl.stages power routePins) m
  rw [bringUp, if_neg hne]
  exact ⟨_, m', bind_of_ok hstages⟩

/-- Of the first stage, only clock and reset can fail. -/
theorem quiesce_eq_failure (h : ctrl.quiesce power m = .error (.failure cause) m') :
    power.startClock m = .error (.failure cause) m' ∨
      ∃ m₁, power.startClock m = .ok () m₁ ∧
        power.releaseReset m₁ = .error (.failure cause) m' := by
  have hwrites : Unfailing (do
      ctrl.block.write Offset.scr 0
      ctrl.block.write Offset.fcr Fcr.bothReset : Firmware Unit) :=
    .bind (ctrl.block.failsWith_write _ _) fun _ ↦ ctrl.block.failsWith_write _ _
  rcases bind_eq_error_iff.1 h with hclock | ⟨_, m₁, hclock, hrest⟩
  · exact .inl hclock
  · refine .inr ⟨m₁, hclock, (bind_eq_error_iff.1 hrest).resolve_right ?_⟩
    rintro ⟨_, m₂, -, hrun⟩
    exact hwrites m₂ cause m' hrun

/-- Of the third one, only the pins can. -/
theorem enable_eq_failure (h : ctrl.enable routePins m = .error (.failure cause) m') :
    ∃ m₁ m₂ m₃, ctrl.setRate m = .ok () m₁ ∧ delay ctrl.line.settleMicros m₁ = .ok () m₂ ∧
      (ctrl.block.write Offset.fcr 0 : Firmware Unit) m₂ = .ok () m₃ ∧
      routePins m₃ = .error (.failure cause) m' := by
  obtain ⟨_, m₁, hrate, h⟩ :=
    (bind_eq_error_iff.1 h).resolve_left (unfailing_setRate m cause m')
  obtain ⟨_, m₂, hdelay, h⟩ :=
    (bind_eq_error_iff.1 h).resolve_left (FailsWith.delay (q := fun _ ↦ False) _ m₁ cause m')
  obtain ⟨_, m₃, hwrite, h⟩ := (bind_eq_error_iff.1 h).resolve_left Block.write_ne_failure
  refine ⟨m₁, m₂, m₃, hrate, hdelay, hwrite, (bind_eq_error_iff.1 h).resolve_right ?_⟩
  rintro ⟨_, m₄, -, hswitch⟩
  exact Block.write_ne_failure hswitch

/-- **An attempt that failed stopped at clock or reset, and the controller is as it was, or at the
pins, and it stays where its rate is next.** -/
theorem bringUp_eq_failure_cases (hne : ctrl.phase ≠ .enabled)
    (h : ctrl.bringUp power routePins m = .ok (.error (.failure cause), ctrl') m') :
    (ctrl' = ctrl ∧ ctrl.quiesce power m = .error (.failure cause) m') ∨
      (ctrl' = { ctrl with phase := .configuring } ∧ ∃ m₁ m₂, ctrl.quiesce power m = .ok () m₁ ∧
        ctrl.frame m₁ = .ok () m₂ ∧ ctrl.enable routePins m₂ = .error (.failure cause) m') := by
  obtain ⟨hctrl, hstages⟩ := (bringUp_eq_ok_iff hne).1 h
  -- the stop of a stage is the stop of the attempt, which stays in the phase reached before it
  have hstop : ∀ {stop phase}, (Except.error (.failure cause), ctrl'.phase) =
      (Except.error (ε := Stop) (α := Unit) stop, phase) →
      stop = .failure cause ∧ ctrl' = { ctrl with phase } := by
    intro stop phase hr
    obtain ⟨hcause, hphase⟩ := Prod.mk.inj hr
    exact ⟨(Except.error.inj hcause).symm, hphase ▸ hctrl⟩
  rcases runStages_cons_eq_ok hstages with ⟨m₁, hquiesce, hstages⟩ | ⟨_, hquiesce, hr⟩
  · rcases runStages_cons_eq_ok hstages with ⟨m₂, hframe, hstages⟩ | ⟨_, hframe, hr⟩
    · rcases runStages_cons_eq_ok hstages with ⟨m₃, -, hstages⟩ | ⟨_, henable, hr⟩
      · -- a report does not fail
        rcases runStages_cons_eq_ok hstages with ⟨_, -, ⟨⟩⟩ | ⟨_, ⟨⟩, -⟩
      · obtain ⟨rfl, hctrl'⟩ := hstop hr
        exact .inr ⟨hctrl', m₁, m₂, hquiesce, hframe, henable⟩
    · obtain ⟨rfl, -⟩ := hstop hr
      exact (unfailing_frame m₁ cause m' hframe).elim
  · obtain ⟨rfl, hctrl'⟩ := hstop hr
    exact .inl ⟨hctrl', hquiesce⟩

/-- **With pins that do not fail, an attempt that failed stopped at clock or reset.** -/
theorem bringUp_eq_failure (hne : ctrl.phase ≠ .enabled) (hpins : Unfailing routePins)
    (h : ctrl.bringUp power routePins m = .ok (.error (.failure cause), ctrl') m') :
    power.startClock m = .error (.failure cause) m' ∨
      ∃ m₁, power.startClock m = .ok () m₁ ∧
        power.releaseReset m₁ = .error (.failure cause) m' := by
  rcases bringUp_eq_failure_cases hne h with ⟨-, hquiesce⟩ | ⟨-, m₁, m₂, -, -, henable⟩
  · exact quiesce_eq_failure hquiesce
  · exact (unfailing_enable hpins m₂ cause m' henable).elim

/-- An attempt that succeeded went through all stages. -/
theorem stages_of_bringUp_eq_ok (hne : ctrl.phase ≠ .enabled)
    (h : ctrl.bringUp power routePins m = .ok (.ok (), ctrl') m') :
    ctrl' = { ctrl with phase := .enabled } ∧
      ∃ m₁ m₂ m₃, ctrl.quiesce power m = .ok () m₁ ∧ ctrl.frame m₁ = .ok () m₂ ∧
        ctrl.enable routePins m₂ = .ok () m₃ ∧ ctrl.announce m₃ = .ok () m' := by
  obtain ⟨hctrl, hstages⟩ := (bringUp_eq_ok_iff hne).1 h
  rcases runStages_cons_eq_ok hstages with ⟨m₁, hquiesce, hstages⟩ | ⟨_, -, ⟨⟩⟩
  rcases runStages_cons_eq_ok hstages with ⟨m₂, hframe, hstages⟩ | ⟨_, -, ⟨⟩⟩
  rcases runStages_cons_eq_ok hstages with ⟨m₃, henable, hstages⟩ | ⟨_, -, ⟨⟩⟩
  rcases runStages_cons_eq_ok hstages with ⟨m₄, hannounce, hdone⟩ | ⟨_, -, ⟨⟩⟩
  obtain ⟨hphase, rfl⟩ := EStateM.Result.ok.inj hdone
  rw [← (Prod.mk.inj hphase).2] at hctrl
  exact ⟨hctrl, m₁, m₂, m₃, hquiesce, hframe, henable, hannounce⟩

/-- **An attempt that succeeded had clock and reset first, and switched the controller on last**,
right after the pins. -/
theorem bringUp_eq_ok (hne : ctrl.phase ≠ .enabled)
    (h : ctrl.bringUp power routePins m = .ok (.ok (), ctrl') m') :
    ctrl' = { ctrl with phase := .enabled } ∧
      ∃ m₁ m₂ m₃ m₄ es text, power.startClock m = .ok () m₁ ∧ power.releaseReset m₁ = .ok () m₂ ∧
        m₂.Leads es m₃ ∧ routePins m₃ = .ok () m₄ ∧
        m₄.Leads [controlWrite ctrl.line.base Scr.bothOn, .log .info text] m' := by
  obtain ⟨hctrl, n₁, n₂, n₃, hquiesce, hframe, henable, hannounce⟩ :=
    stages_of_bringUp_eq_ok hne h
  -- clock and reset, and the controller's own accesses up to the pins
  obtain ⟨_, m₁, hclock, hrest⟩ := bind_eq_ok_iff.1 hquiesce
  obtain ⟨_, m₂, hreset, hwrites⟩ := bind_eq_ok_iff.1 hrest
  have hwrite : ∀ offset value,
      Emits (fun _ ↦ True) (ctrl.block.write offset value : Firmware Unit) :=
    fun _ _ ↦ Block.emits_write trivial
  obtain ⟨es₁, hes₁, -⟩ := (Emits.bind (hwrite _ _) fun _ ↦ hwrite _ _).of_ok hwrites
  obtain ⟨es₂, hes₂, -⟩ :=
    (emits_frame (p := fun _ ↦ True) (fun _ _ ↦ trivial) trivial).of_ok hframe
  obtain ⟨_, k₁, es₃, hes₃, -, hrest⟩ :=
    (emits_setRate (p := fun _ ↦ True) fun _ _ ↦ trivial).bind_eq_ok henable
  obtain ⟨_, k₂, es₄, hes₄, -, hrest⟩ :=
    (Emits.delay (p := fun _ ↦ True) trivial fun _ ↦ trivial).bind_eq_ok hrest
  obtain ⟨_, m₃, es₅, hes₅, -, hrest⟩ := (hwrite _ _).bind_eq_ok hrest
  -- the pins, and what follows them
  obtain ⟨_, m₄, hpins, hswitch⟩ := bind_eq_ok_iff.1 hrest
  obtain ⟨text, hlog⟩ : ∃ text, n₃.Leads [.log .info text] m' := by
    cases hannounce
    exact ⟨_, .record n₃ rfl⟩
  exact ⟨hctrl, m₁, m₂, m₃, m₄, _, text, hclock, hreset,
    hes₁.trans (hes₂.trans (hes₃.trans (hes₄.trans hes₅))), hpins,
    (Block.write_eq_ok hswitch).trans hlog⟩

end BringUp.Serial.Controller
