import BringUp.Proofs.Machine.Monitor
import BringUp.Proofs.Machine.Session
import BringUp.Proofs.Serial.Controller
import BringUp.Proofs.Serial.Output

/-!
# The life of a controller

Bringing a controller up may stop at the clock, at the reset, at the pins or at any access, and may
be tried again any number of times, with attempts to send in between. Through all this the phase of
the controller and what the hardware was told stay together: transmitter and receiver were switched
on last exactly if the controller is enabled (`Switched`), and a register that sets the controller
up is written only while they were switched off last. A monitor that remembers the latest value of
the control register carries both facts through a call, whatever point it stops at.
-/

namespace BringUp.Serial

open Firmware

/-- The registers that set the controller up: framing, rate, extended mode, FIFOs, line status. -/
def Offset.configuring : List UInt64 := [smr, brr, semr, fcr, lsr]

/-! ### The monitor -/

/-- Remembers the latest value of the control register, and allows registers that set the controller
up to be written only while that is zero. -/
def controlMonitor (base : UInt64) : Monitor (Option UInt32) where
  next last e := (e.writtenTo? (base + Offset.scr)).or last
  allows last e :=
    ∀ offset ∈ Offset.configuring, (e.writtenTo? (base + offset)).isSome → last = some 0

variable {base : UInt64} {last : Option UInt32} {e : Event} {es : List Event}

theorem controlMonitor_after :
    (controlMonitor base).after last es = (lastWritten (base + Offset.scr) es).or last := by
  induction es generalizing last with
  | nil => rfl
  | cons e es ih =>
    have hafter : (controlMonitor base).after last (e :: es) =
        (controlMonitor base).after ((e.writtenTo? (base + Offset.scr)).or last) es := rfl
    rw [hafter, ih, show e :: es = [e] ++ es from rfl, lastWritten_append, lastWritten_singleton,
      Option.or_assoc]

/-- What writes neither the control register nor one that sets the controller up. -/
theorem ignores_of_writtenTo? (hcontrol : e.writtenTo? (base + Offset.scr) = none)
    (hconfig : ∀ offset ∈ Offset.configuring, e.writtenTo? (base + offset) = none) :
    (controlMonitor base).Ignores last e := by
  refine ⟨fun offset hoffset hsome ↦ ?_, ?_⟩
  · rw [hconfig offset hoffset] at hsome
    cases hsome
  · show (e.writtenTo? (base + Offset.scr)).or last = last
    rw [hcontrol, Option.none_or]

theorem ignores_of_avoids (h : e.Avoids base blockSize) : (controlMonitor base).Ignores last e :=
  ignores_of_writtenTo? (h.writtenTo?_eq_none (by decide)) fun offset hoffset ↦
    h.writtenTo?_eq_none (Offset.toNat_lt_of_mem offset
      ((by decide : Offset.configuring ⊆ Offset.all) hoffset))

theorem ignores_of_transmission (h : e.Within (transmission base)) :
    (controlMonitor base).Ignores last e := by
  have hnone : ∀ offset, offset ∉ [Offset.ftdr, Offset.fsr] →
      e.writtenTo? (base + offset) = none := fun offset hoffset ↦
    h.writtenTo?_eq_none fun w hmem ↦ hoffset (Block.offset_mem_of_write_mem hmem)
  have hapart : (Offset.configuring.all fun offset ↦ offset ∉ [Offset.ftdr, Offset.fsr]) = true := by
    decide
  exact ignores_of_writtenTo? (hnone _ (by decide)) fun offset hoffset ↦
    hnone offset (of_decide_eq_true (List.all_eq_true.1 hapart offset hoffset))

/-- With transmitter and receiver off, the controller may be set up. -/
theorem ignores_of_setup (h : e.Within (setup base)) :
    (controlMonitor base).Ignores (some 0) e := by
  have hcontrol : e.writtenTo? (base + Offset.scr) = none := h.writtenTo?_eq_none fun w hmem ↦
    absurd (Block.offset_mem_of_write_mem hmem) (by decide)
  refine ⟨fun _ _ _ ↦ rfl, ?_⟩
  show (e.writtenTo? (base + Offset.scr)).or (some 0) = some 0
  rw [hcontrol, Option.none_or]

theorem next_controlWrite (value : UInt32) :
    (controlMonitor base).next last (controlWrite base value) = some value := by
  show ((controlWrite base value).writtenTo? (base + Offset.scr)).or last = some value
  rw [controlWrite, Event.writtenTo?_busWrite_add, if_pos rfl, Option.some_or]

theorem allows_controlWrite (value : UInt32) :
    (controlMonitor base).allows last (controlWrite base value) := by
  intro offset hoffset hsome
  rw [controlWrite, Event.writtenTo?_busWrite_add, if_neg] at hsome
  · cases hsome
  · rintro rfl
    exact absurd hoffset (by decide)

theorem ignores_controlWrite_off : (controlMonitor base).Ignores (some 0) (controlWrite base 0) :=
  ⟨allows_controlWrite 0, next_controlWrite 0⟩

/-! ### Bringing up -/

/-- Whether the latest value of the control register is what the phase says: both on if the
controller is enabled, otherwise zero, or none yet. -/
def Switched (phase : Phase) (last : Option UInt32) : Prop :=
  if phase = .enabled then last = some Scr.bothOn else last = some 0 ∨ last = none

theorem switched_enabled_iff : Switched .enabled last ↔ last = some Scr.bothOn := by
  rw [Switched, if_pos rfl]

theorem switched_of_ne_enabled_iff {phase : Phase} (h : phase ≠ .enabled) :
    Switched phase last ↔ last = some 0 ∨ last = none := by
  rw [Switched, if_neg h]

namespace Controller

variable {ctrl ctrl' : Controller} {power : Power} {routePins : Firmware Unit}

/-- The stages after one that stops are not done. -/
theorem obeys_runStages_cons {σ : Type} {mon : Monitor σ} {s : σ} {stage : Stage}
    {rest : List Stage} {phase : Phase} {Q : Unit → σ → Prop} {R R' : σ → Prop}
    {P : Except Stop Unit × Phase → σ → Prop} (h : Obeys mon s stage.action Q R)
    (hok : ∀ s', Q () s' → Obeys mon s' (runStages stage.reached rest) P R')
    (hstop : ∀ stop s', R s' → P (.error stop, phase) s') :
    Obeys mon s (runStages phase (stage :: rest)) P R' := by
  refine h.observe.bind fun outcome s' hpost ↦ ?_
  cases outcome with
  | ok _ => exact hok s' hpost
  | error stop => exact .pure (hstop stop s' hpost)

theorem obeys_quiesce (hoff : last = some 0 ∨ last = none)
    (hclock : Emits (Event.Avoids ctrl.line.base blockSize) power.startClock)
    (hreset : Emits (Event.Avoids ctrl.line.base blockSize) power.releaseReset) :
    Obeys (controlMonitor ctrl.line.base) last (ctrl.quiesce power)
      (fun _ last ↦ last = some 0) fun last ↦ last = some 0 ∨ last = none := by
  refine .skip (hclock.mono fun _ ↦ ignores_of_avoids) hoff fun _ ↦ ?_
  refine .skip (hreset.mono fun _ ↦ ignores_of_avoids) hoff fun _ ↦ ?_
  have hswitch : Obeys (controlMonitor ctrl.line.base) last
      (ctrl.block.write Offset.scr 0 : Firmware Unit) (fun _ last ↦ last = some 0)
      fun last ↦ last = some 0 ∨ last = none :=
    Block.obeys_write (e := controlWrite ctrl.line.base 0) rfl (allows_controlWrite 0)
      (next_controlWrite 0) hoff
  refine hswitch.bind fun _ last hlast ↦ ?_
  rw [hlast]
  exact .of_emits (Block.emits_write_within (fun _ ↦ ignores_of_setup) (by decide) _)
    (fun _ ↦ rfl) (.inl rfl)

theorem obeys_frame :
    Obeys (controlMonitor ctrl.line.base) (some 0) ctrl.frame
      (fun _ last ↦ last = some 0) fun last ↦ last = some 0 :=
  .of_emits (emits_frame (fun _ ↦ ignores_of_setup) ignores_controlWrite_off) (fun _ ↦ rfl) rfl

theorem obeys_enable (hpins : Emits (Event.Avoids ctrl.line.base blockSize) routePins) :
    Obeys (controlMonitor ctrl.line.base) (some 0) (ctrl.enable routePins)
      (fun _ last ↦ last = some Scr.bothOn) fun last ↦ last = some 0 := by
  have hquiet : ∀ e : Event, e.Within (setup ctrl.line.base) →
      (controlMonitor ctrl.line.base).Ignores (some 0) e := fun _ ↦ ignores_of_setup
  refine .skip (emits_setRate hquiet) rfl fun _ ↦ ?_
  refine .skip (.delay (hquiet _ trivial) fun _ ↦ hquiet _ trivial) rfl fun _ ↦ ?_
  refine .skip (Block.emits_write_within hquiet (by decide) _) rfl fun _ ↦ ?_
  refine .skip (hpins.mono fun _ ↦ ignores_of_avoids) rfl fun _ ↦ ?_
  exact Block.obeys_write (e := controlWrite ctrl.line.base Scr.bothOn) rfl (allows_controlWrite _)
    (next_controlWrite _) rfl

theorem obeys_announce :
    Obeys (controlMonitor ctrl.line.base) last ctrl.announce (fun _ last' ↦ last' = last)
      fun _ ↦ False :=
  .log (ignores_of_writtenTo? rfl fun _ _ ↦ rfl) rfl

/-- **Bringing up keeps phase and hardware together**, at whatever point it stops. -/
theorem obeys_bringUp (hne : ctrl.phase ≠ .enabled) (hoff : last = some 0 ∨ last = none)
    (hclock : Emits (Event.Avoids ctrl.line.base blockSize) power.startClock)
    (hreset : Emits (Event.Avoids ctrl.line.base blockSize) power.releaseReset)
    (hpins : Emits (Event.Avoids ctrl.line.base blockSize) routePins) :
    Obeys (controlMonitor ctrl.line.base) last (ctrl.bringUp power routePins)
      (fun r last ↦ r.2.line = ctrl.line ∧ (r.1 = .ok () ↔ r.2.phase = .enabled) ∧
        Switched r.2.phase last) fun _ ↦ False := by
  -- a run of stages that stops does so before the phase is `enabled`
  have hstop : ∀ {phase : Phase} (stop : Stop) (last : Option UInt32), phase ≠ .enabled →
      last = some 0 ∨ last = none →
        ((Except.error stop : Except Stop Unit) = .ok () ↔ phase = .enabled) ∧
          Switched phase last := by
    intro phase stop last hphase hlast
    exact ⟨iff_of_false nofun hphase, (switched_of_ne_enabled_iff hphase).2 hlast⟩
  have hstages : Obeys (controlMonitor ctrl.line.base) last
      (runStages ctrl.phase (ctrl.stages power routePins))
      (fun r last ↦ (r.1 = .ok () ↔ r.2 = .enabled) ∧ Switched r.2 last) fun _ ↦ False := by
    refine obeys_runStages_cons (obeys_quiesce hoff hclock hreset) ?_ fun stop last hlast ↦
      hstop stop last hne hlast
    rintro _ rfl
    refine obeys_runStages_cons obeys_frame ?_ fun stop last hlast ↦
      hstop stop last (show Phase.disabled ≠ .enabled by decide) (.inl hlast)
    rintro _ rfl
    refine obeys_runStages_cons (obeys_enable hpins) ?_ fun stop last hlast ↦
      hstop stop last (show Phase.configuring ≠ .enabled by decide) (.inl hlast)
    rintro _ rfl
    refine obeys_runStages_cons obeys_announce ?_ fun _ _ ↦ False.elim
    rintro _ rfl
    exact .pure ⟨iff_of_true rfl rfl, switched_enabled_iff.2 rfl⟩
  rw [bringUp, if_neg hne]
  exact hstages.bind fun r last hr ↦ .pure ⟨rfl, hr⟩

theorem bringUp_of_enabled (h : ctrl.phase = .enabled) (power : Power) (routePins : Firmware Unit)
    (m : Machine) :
    ctrl.bringUp power routePins m = .ok (.error (.failure .alreadyUp), ctrl) m := by
  rw [bringUp, if_pos h]
  rfl

/-! ### Calls -/

/-- What can be asked of a controller. -/
inductive Call
  /-- Bring it up, by this way to clock, reset and pins. -/
  | bringUp (power : Power) (routePins : Firmware Unit)
  /-- Send a byte. -/
  | send (b : UInt8)
  /-- Send a byte unless that takes too long. -/
  | trySend (deadline : Deadline) (b : UInt8)
  /-- Send a text. -/
  | writeText (text : String)

/-- Carries out a call. Gives how it ended and the controller afterwards. -/
def make (ctrl : Controller) : Call → Firmware (Except Stop Unit × Controller)
  | .bringUp power routePins => ctrl.bringUp power routePins
  | .send b => settling ctrl (return ((), ← Sink.put ctrl b))
  | .trySend deadline b => settling ctrl (return (← ctrl.trySend deadline b, ctrl))
  | .writeText text => settling ctrl (return ((), ← Sink.writeText ctrl text))

/-- Clock, reset and pins, if the call brings them, leave the block at `base` alone. -/
def Call.Apart (base : UInt64) : Call → Prop
  | .bringUp power routePins =>
    Emits (Event.Avoids base blockSize) power.startClock ∧
      Emits (Event.Avoids base blockSize) power.releaseReset ∧
      Emits (Event.Avoids base blockSize) routePins
  | _ => True

/-- The call is one to bring the controller up. -/
def Call.IsBringUp (c : Call) : Prop :=
  ∃ power routePins, c = .bringUp power routePins

variable {c : Call} {ending : Except Stop Unit} {m m' : Machine}

/-- An action that does nothing but send through the controller. -/
structure OnlySends (ctrl : Controller) (action : Firmware (Unit × Controller)) : Prop where
  /-- Only the registers for sending are accessed. -/
  emits : Emits (Event.Within (transmission ctrl.line.base)) action
  /-- The controller is as it was. -/
  keeps : ∀ m r m', action m = .ok r m' → r.2 = ctrl
  /-- Nothing is done unless the controller is enabled. -/
  idle : ctrl.phase ≠ .enabled → ∀ m : Machine, action.after m = m

theorem onlySends_putAll (ctrl : Controller) (bytes : List UInt8) :
    OnlySends ctrl (return ((), ← Sink.putAll ctrl bytes)) where
  emits := .bind (emits_putAll (fun _ ↦ id) bytes) fun _ ↦ .pure _
  keeps m r m' h := by
    obtain ⟨sink, m₁, hput, hpure⟩ := bind_eq_ok_iff.1 h
    cases hpure
    exact putAll_eq_ok hput
  idle hne m := after_of_ok (bind_of_ok (putAll_of_ne_enabled hne bytes m))

theorem onlySends_trySend (ctrl : Controller) (deadline : Deadline) (b : UInt8) :
    OnlySends ctrl (return (← ctrl.trySend deadline b, ctrl)) where
  emits := .bind (emits_trySend_of fun _ h _ ↦ h) fun _ ↦ .pure _
  keeps m r m' h := by
    obtain ⟨_, m₁, -, hpure⟩ := bind_eq_ok_iff.1 h
    cases hpure
    rfl
  idle hne m := after_of_error (bind_of_error (trySend_of_ne_enabled hne))

/-- Every call but one to bring the controller up only sends. -/
theorem make_eq_settling (hc : ¬ c.IsBringUp) (ctrl : Controller) :
    ∃ action, make ctrl c = settling ctrl action ∧ OnlySends ctrl action := by
  cases c with
  | bringUp power routePins => exact absurd ⟨power, routePins, rfl⟩ hc
  | send b => exact ⟨_, rfl, putAll_singleton ctrl b ▸ onlySends_putAll ctrl [b]⟩
  | trySend deadline b => exact ⟨_, rfl, onlySends_trySend ctrl deadline b⟩
  | writeText text => exact ⟨_, rfl, onlySends_putAll ctrl _⟩

theorem OnlySends.eq_of_settling {action : Firmware (Unit × Controller)}
    (h : OnlySends ctrl action) (hrun : settling ctrl action m = .ok (ending, ctrl') m') :
    ctrl' = ctrl ∧ (ctrl.phase ≠ .enabled → m' = m) := by
  rcases settling_eq_ok hrun with ⟨_, -, haction⟩ | ⟨_, -, hctrl, haction⟩
  · exact ⟨h.keeps _ _ _ haction, fun hne ↦ by rw [← after_of_ok haction, h.idle hne]⟩
  · exact ⟨hctrl, fun hne ↦ by rw [← after_of_error haction, h.idle hne]⟩

/-- Calls that leave the block alone do what can be told by events. -/
theorem emits_make (hc : c.Apart base) (ctrl : Controller) :
    Emits (fun _ ↦ True) (make ctrl c) := by
  by_cases hup : c.IsBringUp
  · obtain ⟨power, routePins, rfl⟩ := hup
    obtain ⟨hclock, hreset, hpins⟩ := hc
    exact emits_bringUp (fun _ _ ↦ trivial) (fun _ ↦ trivial) (hclock.mono fun _ _ ↦ trivial)
      (hreset.mono fun _ _ ↦ trivial) (hpins.mono fun _ _ ↦ trivial)
  · obtain ⟨action, haction, hsends⟩ := make_eq_settling hup ctrl
    rw [haction]
    exact hsends.emits.settling.mono fun _ _ ↦ trivial

/-! ### Steps -/

variable {s : Step Controller Call Unit}

/-- The controller was brought up. -/
def BroughtUp (s : Step Controller Call Unit) : Prop :=
  s.request.IsBringUp ∧ s.ending = .ok ()

/-- The call was refused because the controller is up, and would have been whatever there is to be
called for clock, reset and pins: nothing was done at all. -/
structure Refused (s : Step Controller Call Unit) : Prop where
  /-- The caller was told. -/
  ending_eq : s.ending = .error (.failure .alreadyUp)
  /-- No event happened. -/
  events_eq : s.events = []
  /-- Clock, reset and pins do not matter. -/
  refuses : ∀ power routePins m,
    s.before.bringUp power routePins m = .ok (.error (.failure .alreadyUp), s.before) m

/-- What sends neither sets the controller up nor brings it up. -/
theorem step_of_sending (hmade : s.Made make m') (hc : ¬ s.request.IsBringUp) :
    s.after = s.before ∧ ¬ BroughtUp s ∧ (s.before.phase ≠ .enabled → s.events = []) ∧
      ∀ e ∈ s.events, e.Within (transmission s.before.line.base) := by
  obtain ⟨action, haction, hsends⟩ := make_eq_settling hc s.before
  obtain ⟨hafter, hidle⟩ := hsends.eq_of_settling (haction ▸ hmade.run_eq)
  refine ⟨hafter, fun h ↦ hc h.1, fun hne ↦ hmade.events_eq_nil (hidle hne), ?_⟩
  exact (hmade.leads (haction ▸ hsends.emits.settling)).2

/-- An enabled controller stays as it is, and refuses to be brought up. -/
theorem step_of_enabled (hmade : s.Made make m') (henabled : s.before.phase = .enabled) :
    s.after = s.before ∧ (s.request.IsBringUp → Refused s) := by
  by_cases hc : s.request.IsBringUp
  · obtain ⟨power, routePins, hrequest⟩ := hc
    have hrun := hmade.run_eq
    rw [hrequest] at hrun
    obtain ⟨hresult, hm⟩ := EStateM.Result.ok.inj
      ((bringUp_of_enabled henabled power routePins s.machine).symm.trans hrun)
    obtain ⟨hending, hafter⟩ := Prod.mk.inj hresult
    exact ⟨hafter.symm, fun _ ↦
      ⟨hending.symm, hmade.events_eq_nil hm.symm, bringUp_of_enabled henabled⟩⟩
  · exact ⟨(step_of_sending hmade hc).1, fun h ↦ absurd h hc⟩

/-- **What one call preserves**, if it leaves the block alone but through the controller. -/
theorem step_of_apart (hmade : s.Made make m') (hapart : s.request.Apart s.before.line.base)
    (hlast : Switched s.before.phase last) :
    s.after.line = s.before.line ∧
      (s.after.phase = .enabled ↔ s.before.phase = .enabled ∨ BroughtUp s) ∧
      (controlMonitor s.before.line.base).Accepts last s.events ∧
      Switched s.after.phase ((controlMonitor s.before.line.base).after last s.events) := by
  by_cases hc : s.request.IsBringUp
  · by_cases henabled : s.before.phase = .enabled
    · obtain ⟨hafter, hrefused⟩ := step_of_enabled hmade henabled
      rw [hafter, (hrefused hc).events_eq]
      exact ⟨rfl, ⟨.inl, fun _ ↦ henabled⟩, trivial, hlast⟩
    · obtain ⟨power, routePins, hrequest⟩ := hc
      rw [hrequest] at hapart
      obtain ⟨hclock, hreset, hpins⟩ := hapart
      have hrun := hmade.run_eq
      rw [hrequest] at hrun
      obtain ⟨es, hes, haccepts, hline, hiff, hswitched⟩ := (obeys_bringUp henabled
        ((switched_of_ne_enabled_iff henabled).1 hlast) hclock hreset hpins).of_ok hrun
      obtain rfl := hmade.eq_events hes
      refine ⟨hline, ?_, haccepts, hswitched⟩
      rw [← hiff]
      exact ⟨fun hok ↦ .inr ⟨⟨power, routePins, hrequest⟩, hok⟩,
        fun h ↦ (h.resolve_left henabled).2⟩
  · obtain ⟨hafter, hnot, -, hsends⟩ := step_of_sending hmade hc
    have hquiet : ∀ e ∈ s.events, (controlMonitor s.before.line.base).Ignores last e :=
      fun e he ↦ ignores_of_transmission (hsends e he)
    obtain ⟨haccepts, hstays⟩ := Monitor.accepts_of_ignores hquiet
    rw [hafter, hstays]
    exact ⟨rfl, ⟨.inl, fun h ↦ h.resolve_right hnot⟩, haccepts, hlast⟩

/-- The transmit register is written through an enabled controller only. -/
theorem enabled_of_written (hmade : s.Made make m')
    (hapart : s.request.Apart s.before.line.base) {e : Event} (he : e ∈ s.events)
    (hwritten : (e.writtenTo? (s.before.line.base + Offset.ftdr)).isSome) :
    s.before.phase = .enabled := by
  by_cases hc : s.request.IsBringUp
  · obtain ⟨power, routePins, hrequest⟩ := hc
    rw [hrequest] at hapart
    obtain ⟨hclock, hreset, hpins⟩ := hapart
    -- bringing up does not write it, nor do clock, reset and pins
    have havoids : ∀ e : Event, e.Avoids s.before.line.base blockSize →
        e.writtenTo? (s.before.line.base + Offset.ftdr) = none :=
      fun e h ↦ h.writtenTo?_eq_none (by decide)
    have hemits : Emits (fun e ↦ e.writtenTo? (s.before.line.base + Offset.ftdr) = none)
        (make s.before s.request) := by
      rw [hrequest]
      refine emits_bringUp (fun e h ↦ ?_) (fun value ↦ ?_) (hclock.mono havoids)
        (hreset.mono havoids) (hpins.mono havoids)
      · exact h.writtenTo?_eq_none fun w hmem ↦
          absurd (Block.offset_mem_of_write_mem hmem) (by decide)
      · rw [controlWrite, Event.writtenTo?_busWrite_add, if_neg (by decide)]
    rw [(hmade.leads hemits).2 e he] at hwritten
    cases hwritten
  · refine Classical.byContradiction fun hne ↦ ?_
    rw [(step_of_sending hmade hc).2.2.1 hne] at he
    cases he

/-! ### Sessions -/

variable {line : Line} {bank : CsrFile} {steps : List (Step Controller Call Unit)}

/-- **What a session preserves.** -/
theorem invariant_of_session (h : Session make ⟨line, .uninitialized⟩ bank steps ctrl m)
    (hapart : ∀ s ∈ steps, s.request.Apart line.base) :
    ctrl.line = line ∧ (ctrl.phase = .enabled ↔ ∃ s ∈ steps, BroughtUp s) ∧
      (controlMonitor line.base).Accepts none (history steps) ∧
      Switched ctrl.phase ((controlMonitor line.base).after none (history steps)) := by
  induction h with
  | start =>
    have hnone : ¬ ∃ s ∈ ([] : List (Step Controller Call Unit)), BroughtUp s := by simp
    have hphase : Phase.uninitialized ≠ .enabled := by decide
    exact ⟨rfl, iff_of_false hphase hnone, trivial, (switched_of_ne_enabled_iff hphase).2 (.inr rfl)⟩
  | elsewhere _ _ ih => exact ih hapart
  | @call steps s m' _ hmade ih =>
    obtain ⟨hfront, hlatest⟩ := List.forall_mem_append.1 hapart
    obtain ⟨hline, hiff, haccepts, hswitched⟩ := ih hfront
    have hs : s.request.Apart s.before.line.base :=
      hline.symm ▸ hlatest s (List.mem_singleton.2 rfl)
    obtain ⟨hline', hiff', haccepts', hswitched'⟩ := step_of_apart hmade hs hswitched
    rw [hline] at hline' haccepts' hswitched'
    rw [history_append, history_singleton, Monitor.after_append, Monitor.accepts_append, hiff', hiff]
    refine ⟨hline', ?_, ⟨haccepts, haccepts'⟩, hswitched'⟩
    simp only [List.mem_append, List.mem_singleton, or_and_right, exists_or, exists_eq_left]

/-- Once enabled, a controller stays the same. -/
theorem before_eq_of_enabled (h : Session make ctrl bank steps ctrl' m)
    (henabled : ctrl.phase = .enabled) : ctrl' = ctrl ∧ ∀ s ∈ steps, s.before = ctrl := by
  induction h with
  | start => exact ⟨rfl, List.forall_mem_nil _⟩
  | elsewhere _ _ ih => exact ih
  | @call steps s m' _ hmade ih =>
    obtain ⟨hbefore, hsteps⟩ := ih
    have hafter := (step_of_enabled hmade (hbefore.symm ▸ henabled)).1
    exact ⟨hafter.trans hbefore, List.forall_mem_append.2 ⟨hsteps, by simpa using hbefore⟩⟩

/-- Of the calls of a session, one at most brings the controller up; every later attempt is
refused. -/
theorem refused_of_broughtUp {before later : List (Step Controller Call Unit)}
    (h : Session make ⟨line, .uninitialized⟩ bank (before ++ s :: later) ctrl m)
    (hapart : ∀ t ∈ before ++ s :: later, t.request.Apart line.base) (hs : BroughtUp s) :
    ∀ t ∈ later, ¬ BroughtUp t ∧ (t.request.IsBringUp → Refused t) := by
  obtain ⟨m', hfront, hmade, hlater⟩ := h.made
  obtain ⟨hbefore, hrest⟩ := List.forall_mem_append.1 hapart
  obtain ⟨hline, -, -, hswitched⟩ := invariant_of_session hfront hbefore
  have henabled : s.after.phase = .enabled :=
    (step_of_apart hmade (hline.symm ▸ (List.forall_mem_cons.1 hrest).1) hswitched).2.1.2 (.inr hs)
  intro t ht
  obtain ⟨before', later', rfl⟩ := List.append_of_mem ht
  obtain ⟨_, -, hmade', -⟩ := hlater.made
  have htenabled : t.before.phase = .enabled := by
    rw [(before_eq_of_enabled hlater henabled).2 t ht]
    exact henabled
  have hrefused := (step_of_enabled hmade' htenabled).2
  refine ⟨fun hup ↦ ?_, hrefused⟩
  have hending := (hrefused hup.1).ending_eq
  rw [hup.2] at hending
  cases hending

/-- **The life of a controller.** Whatever is called on a fresh controller, in whatever order and
under any device, as long as clock, reset and pins leave its registers alone, at every point between
two calls: the controller is enabled exactly if it was brought up, which happens once at most, after
which every attempt is refused; the control register was last set to both transmitter and receiver
on exactly if the controller is enabled, and otherwise to zero if at all; nothing is transmitted
before the controller was brought up; and while anything that sets it up is written, the latest
value of the control register is zero. -/
theorem lifecycle (h : Session make ⟨line, .uninitialized⟩ bank steps ctrl m)
    (hapart : ∀ s ∈ steps, s.request.Apart line.base) :
    (ctrl.phase = .enabled ↔ ∃ s ∈ steps, BroughtUp s) ∧
    (∀ before s later, steps = before ++ s :: later → BroughtUp s →
      ∀ t ∈ later, ¬ BroughtUp t ∧ (t.request.IsBringUp → Refused t)) ∧
    (lastWritten (line.base + Offset.scr) (history steps) = some Scr.bothOn ↔
      ctrl.phase = .enabled) ∧
    (ctrl.phase ≠ .enabled → lastWritten (line.base + Offset.scr) (history steps) = some 0 ∨
      lastWritten (line.base + Offset.scr) (history steps) = none) ∧
    (∀ before s later, steps = before ++ s :: later →
      (∃ e ∈ s.events, (e.writtenTo? (line.base + Offset.ftdr)).isSome) →
        ∃ t ∈ before, BroughtUp t) ∧
    ∀ before e later, history steps = before ++ e :: later →
      (∃ offset ∈ Offset.configuring, (e.writtenTo? (line.base + offset)).isSome) →
        lastWritten (line.base + Offset.scr) before = some 0 := by
  obtain ⟨hline, hiff, haccepts, hswitched⟩ := invariant_of_session h hapart
  rw [controlMonitor_after, Option.or_none] at hswitched
  refine ⟨hiff, ?_, ?_, fun hne ↦ (switched_of_ne_enabled_iff hne).1 hswitched, ?_, ?_⟩
  · rintro before s later rfl hs
    exact refused_of_broughtUp h hapart hs
  · refine ⟨fun hlast ↦ Classical.byContradiction fun hne ↦ ?_, fun henabled ↦ ?_⟩
    · rcases (switched_of_ne_enabled_iff hne).1 hswitched with hoff | hnone
      · exact absurd (hlast.symm.trans hoff) (by decide)
      · exact absurd (hlast.symm.trans hnone) nofun
    · rw [henabled] at hswitched
      exact switched_enabled_iff.1 hswitched
  · rintro before s later rfl ⟨e, he, hwritten⟩
    obtain ⟨m', hfront, hmade, -⟩ := h.made
    obtain ⟨hbefore, hrest⟩ := List.forall_mem_append.1 hapart
    obtain ⟨hline', hiff', -, -⟩ := invariant_of_session hfront hbefore
    rw [← hline'] at hwritten
    exact hiff'.1 (enabled_of_written hmade
      (hline'.symm ▸ (List.forall_mem_cons.1 hrest).1) he hwritten)
  · rintro before e later hhistory ⟨offset, hoffset, hwritten⟩
    rw [hhistory] at haccepts
    have hlast := haccepts.allows offset hoffset hwritten
    rwa [controlMonitor_after, Option.or_none] at hlast

/-- The clock does not start, a byte is dropped, the second attempt succeeds and a third is
refused. -/
theorem lifecycle_second_attempt :
    ∃ (line : Line) (steps : List (Step Controller Call Unit)) (ctrl : Controller) (m : Machine),
      Session make ⟨line, .uninitialized⟩ .zero steps ctrl m ∧
      (∀ s ∈ steps, s.request.Apart line.base) ∧
      steps.map Step.ending = [.error (.failure (.timeout "clock" 0)), .ok (), .ok (),
        .error (.failure .alreadyUp)] ∧
      ctrl.phase = .enabled ∧
      lastWritten (line.base + Offset.scr) (history steps) = some Scr.bothOn := by
  let line : Line := ⟨0x1004B800, 100000000, 115200, 26, true, by decide⟩
  let fresh : Controller := ⟨line, .uninitialized⟩
  let m : Machine := { watchdog := ⟨3, 0, 0, 0⟩ }
  let broken : Call := .bringUp ⟨fail (.timeout "clock" 0), pure ()⟩ (pure ())
  let working : Call := .bringUp ⟨pure (), pure ()⟩ (pure ())
  have hbroken : broken.Apart line.base := ⟨.fail _, .pure _, .pure _⟩
  have hworking : working.Apart line.base := ⟨.pure _, .pure _, .pure _⟩
  have hup : (make fresh working).endsWith (fun r _ ↦ r.1.isOk && r.2.phase == .enabled) m = true := by
    decide +kernel
  obtain ⟨⟨ending, ctrl⟩, m', hrun, htest⟩ := endsWith_iff.1 hup
  obtain ⟨hok, henabled⟩ := Bool.and_eq_true_iff.1 htest
  replace henabled : ctrl.phase = .enabled := beq_iff_eq.1 henabled
  obtain rfl : ending = .ok () := by
    cases ending with
    | ok _ => rfl
    | error _ => cases hok
  have hrefused : make ctrl working m' = .ok (.error (.failure .alreadyUp), ctrl) m' :=
    bringUp_of_enabled henabled _ _ m'
  have hstart : Session make fresh .zero [] fresh m := .start rfl
  obtain ⟨_, hfirst⟩ := hstart.extend broken (emits_make hbroken fresh) rfl
  have hbyte : (Call.send 0x41).Apart line.base := trivial
  obtain ⟨_, hsecond⟩ := hfirst.extend (.send 0x41) (emits_make hbyte fresh) rfl
  obtain ⟨_, hthird⟩ := hsecond.extend working (emits_make hworking fresh) hrun
  obtain ⟨_, hfourth⟩ := hthird.extend working (emits_make hworking ctrl) hrefused
  obtain ⟨steps, hsteps, hsession⟩ : ∃ steps : List (Step Controller Call Unit),
      steps.map Step.request = [broken, .send 0x41, working, working] ∧
        steps.map Step.ending = [.error (.failure (.timeout "clock" 0)), .ok (), .ok (),
          .error (.failure .alreadyUp)] ∧ Session make fresh .zero steps ctrl m' :=
    ⟨_, rfl, rfl, hfourth⟩
  have hapart : ∀ s ∈ steps, s.request.Apart line.base := by
    intro s hs
    have hmem := hsteps ▸ List.mem_map_of_mem (f := Step.request) hs
    simp only [List.mem_cons, List.not_mem_nil, or_false] at hmem
    rcases hmem with h | h | h | h <;> rw [h] <;> assumption
  obtain ⟨-, -, hlast, -⟩ := lifecycle hsession.2 hapart
  exact ⟨line, steps, ctrl, m', hsession.2, hapart, hsession.1, henabled, hlast.2 henabled⟩

end Controller

end BringUp.Serial
