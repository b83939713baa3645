import BringUp.Proofs.Machine.Progress
import BringUp.Proofs.Serial.Contents
import BringUp.Proofs.Serial.Settle

/-!
# Trying again

An attempt to bring a controller up may fail at clock, reset or pins, and be made again any number
of times (`Retries`). An attempt that failed has left the registers as they were, or configured, and
the phase of the controller tells which (`Retries.untouched_or_configured`). From either, an attempt
in which clock, reset and pins succeed brings the registers to the same contents as a single one
from the start (`retried_as_once`).
-/

namespace BringUp.Serial

open Firmware

variable {line : Line} {power : Power} {routePins : Firmware Unit} {start m m' : Machine}

/-! ### Attempts that end -/

/-- The registers do not pass the end of the address space. -/
def Line.InSpace (line : Line) : Prop :=
  line.base.toNat + blockSize ≤ UInt64.size

instance (line : Line) : Decidable line.InSpace :=
  inferInstanceAs (Decidable (_ ≤ _))

theorem Offset.fits_of_mem (hspace : line.InSpace) :
    ∀ offset ∈ Offset.all, Block.Fits ⟨line.base, layout⟩ offset := by
  have hall : (Offset.all.all fun offset ↦
      decide (offset.toNat + (layout.width offset).bytes ≤ blockSize)) = true := by decide
  intro offset hmem
  have hlast : offset.toNat + (layout.width offset).bytes ≤ blockSize :=
    of_decide_eq_true (List.all_eq_true.1 hall offset hmem)
  calc line.base.toNat + offset.toNat + (layout.width offset).bytes
    _ = line.base.toNat + (offset.toNat + (layout.width offset).bytes) := Nat.add_assoc ..
    _ ≤ line.base.toNat + blockSize := Nat.add_le_add_left hlast _
    _ ≤ UInt64.size := hspace

namespace Controller

variable {ctrl ctrl' : Controller} {cause : Failure}

section Ends

variable (h : ctrl.line.InSpace)
include h

theorem concludes_read {offset : UInt64} (hmem : offset ∈ Offset.all) :
    Concludes 1 (ctrl.block.read offset : Firmware UInt32) :=
  (Offset.fits_of_mem h offset hmem).concludes_read

theorem concludes_write {offset : UInt64} (hmem : offset ∈ Offset.all) (value : UInt32) :
    Concludes 0 (ctrl.block.write offset value : Firmware Unit) :=
  (Offset.fits_of_mem h offset hmem).concludes_write value

theorem concludes_off : Concludes 0 (do
    ctrl.block.write Offset.scr 0
    ctrl.block.write Offset.fcr Fcr.bothReset : Firmware Unit) :=
  .bind (concludes_write h (by decide) _) fun _ ↦ concludes_write h (by decide) _

theorem concludes_frame : Concludes 2 ctrl.frame := by
  refine .mono (.bind (concludes_read h ?_) fun _ ↦ .bind (concludes_write h ?_ _) fun _ ↦
    .bind (concludes_read h ?_) fun _ ↦ .bind (concludes_write h ?_ _) fun _ ↦
      .bind (concludes_write h ?_ _) fun _ ↦ concludes_write h ?_ _) ?_
  all_goals decide

theorem concludes_setRate : Concludes 1 ctrl.setRate := by
  have hmode : ∀ value, Concludes 0 (ctrl.block.write Offset.semr value : Firmware Unit) :=
    concludes_write h (by decide)
  have hrate : ∀ value, Concludes 0 (ctrl.block.write Offset.brr value : Firmware Unit) :=
    concludes_write h (by decide)
  exact .mono (.bind (concludes_read h (by decide)) fun _ ↦ .bind (hmode _) fun _ ↦
    .bind (hrate _) fun _ ↦ .ite (.bind (hmode _) fun _ ↦ .bind (hrate _) fun _ ↦ .log _ _)
      (.log _ _)) (by decide)

/-- With clock and reset, an attempt gets to its settle wait. -/
theorem approach_ends {m₁ m₂ : Machine} (hclock : power.startClock m = .ok () m₁)
    (hreset : power.releaseReset m₁ = .ok () m₂) (hplain : m₂.device = .plain)
    (hreads : m₂.watchdog.busReads + 3 ≤ m₂.watchdog.limit) :
    ∃ m', ctrl.approach power m = .ok () m' ∧ m'.device = .plain := by
  have hresponds₂ : m₂.device.Responds := hplain ▸ Device.responds_plain
  obtain ⟨_, m₃, hwrites, hdevice₃, hcount, hlimit⟩ := concludes_off h m₂ hresponds₂ (by omega)
  obtain ⟨_, m', hrest, hdevice', -⟩ :=
    ((concludes_frame h).bind fun _ ↦ concludes_setRate h) m₃ (hdevice₃ ▸ hresponds₂) (by omega)
  have hquiesce : ctrl.quiesce power m = .ok () m₃ := by
    rw [quiesce, bind_of_ok hclock, bind_of_ok hreset]
    exact hwrites
  exact ⟨m', (bind_of_ok hquiesce).trans hrest, hdevice'.trans (hdevice₃.trans hplain)⟩

end Ends

end Controller

/-! ### Clock, reset and pins -/

/-- Clock or reset fails. -/
def Power.FailsTo (power : Power) (m : Machine) (cause : Failure) (m' : Machine) : Prop :=
  power.startClock m = .error (.failure cause) m' ∨
    ∃ m₁, power.startClock m = .ok () m₁ ∧ power.releaseReset m₁ = .error (.failure cause) m'

namespace Controller

variable {ctrl ctrl' : Controller} {cause : Failure}

/-- An attempt gets as far as the pins. -/
def Reaches (ctrl : Controller) (power : Power) (m m' : Machine) : Prop :=
  ∃ m₁ m₂, ctrl.approach power m = .ok () m₁ ∧ delay ctrl.line.settleMicros m₁ = .ok () m₂ ∧
    (ctrl.block.write Offset.fcr 0 : Firmware Unit) m₂ = .ok () m'

/-- Clock, reset and pins succeed in an attempt, and so does the settle wait. The watchdog allows for
the three reads that are left after clock and reset. -/
structure Succeeds (ctrl : Controller) (power : Power) (routePins : Firmware Unit) (m : Machine) :
    Prop where
  /-- Clock and reset. -/
  powered : ∃ m₁ m₂, power.startClock m = .ok () m₁ ∧ power.releaseReset m₁ = .ok () m₂ ∧
    m₂.watchdog.busReads + 3 ≤ m₂.watchdog.limit
  /-- The settle wait. -/
  settled : ∀ m₁, ctrl.approach power m = .ok () m₁ →
    ∃ m₂, delay ctrl.line.settleMicros m₁ = .ok () m₂
  /-- The pins. -/
  routed : ∀ m₁, ctrl.Reaches power m m₁ → ∃ m₂, routePins m₁ = .ok () m₂

/-- An attempt that failed at clock or reset touched nothing, and one that failed at the pins left
the block configured. -/
theorem bringUp_eq_failure_of_apart (hne : ctrl.phase ≠ .enabled) (hplain : m.device = .plain)
    (hapart : Apart ctrl.line power routePins)
    (h : ctrl.bringUp power routePins m = .ok (.error (.failure cause), ctrl') m') :
    (power.FailsTo m cause m' ∧ ctrl' = ctrl ∧ m.Becomes ctrl.line.base blockSize unchanged m' ∧
        ∃ es, m.Leads es m' ∧ ∀ e ∈ es, e.Avoids ctrl.line.base blockSize) ∨
      (∃ m₁, ctrl.Reaches power m m₁ ∧ routePins m₁ = .error (.failure cause) m') ∧
        ctrl' = { ctrl with phase := .configuring } ∧
        m.Becomes ctrl.line.base blockSize ctrl.line.configured m' := by
  rcases bringUp_eq_failure_cases hne h with
    ⟨hctrl, hquiesce⟩ | ⟨hctrl, m₁, m₂, hquiesce, hframe, henable⟩
  · have hfails : power.FailsTo m cause m' := quiesce_eq_failure hquiesce
    have hrun : (power.startClock >>= fun _ ↦ power.releaseReset) m = .error (.failure cause) m' :=
      bind_eq_error_iff.2 (hfails.imp_right fun ⟨m₁, hclock, hreset⟩ ↦ ⟨(), m₁, hclock, hreset⟩)
    have halone := hapart.clock.bind fun _ ↦ hapart.reset
    exact .inl ⟨hfails, hctrl, halone.becomes_of_error hplain hrun, halone.emits.of_error hrun⟩
  · obtain ⟨m₃, m₄, m₅, hrate, hdelay, hwrite, hroute⟩ := enable_eq_failure henable
    have happroach : ctrl.approach power m = .ok () m₃ := by
      rw [approach, bind_of_ok hquiesce, bind_of_ok hframe, hrate]
    have hconfigured :=
      becomes_configured hapart hplain hquiesce hframe hrate hdelay hwrite
    exact .inr ⟨⟨m₅, ⟨m₃, m₄, happroach, hdelay, hwrite⟩, hroute⟩, hctrl,
      hconfigured.trans (hapart.pins.becomes_of_error hconfigured.device_eq hroute)⟩

/-- **An attempt in which clock, reset and pins succeed ends with the controller up.** -/
theorem bringUp_of_succeeds (hne : ctrl.phase ≠ .enabled) (hspace : ctrl.line.InSpace)
    (hplain : m.device = .plain) (hapart : Apart ctrl.line power routePins)
    (h : ctrl.Succeeds power routePins m) :
    ∃ m', ctrl.bringUp power routePins m = .ok (.ok (), { ctrl with phase := .enabled }) m' := by
  obtain ⟨m₁, m₂, hclock, hreset, hreads⟩ := h.powered
  have hplain₁ := (hapart.clock.makes m _ m₁ hplain hclock).device_eq
  have hplain₂ := (hapart.reset.makes m₁ _ m₂ hplain₁ hreset).device_eq
  obtain ⟨m₃, happroach, hplain₃⟩ := approach_ends hspace hclock hreset hplain₂ hreads
  obtain ⟨m₄, hdelay⟩ := h.settled m₃ happroach
  have hdelay' : LeavesAlone ctrl.line.base blockSize (delay ctrl.line.settleMicros) := .delay _
  have hplain₄ := (hdelay'.makes m₃ _ m₄ hplain₃ hdelay).device_eq
  obtain ⟨m₅, hwrite, hdevice₅, -⟩ := (Offset.fits_of_mem hspace Offset.fcr (by decide)).write_ends
    0 (hplain₄ ▸ Device.responds_plain)
  have hplain₅ : m₅.device = .plain := hdevice₅.trans hplain₄
  obtain ⟨m₆, hroute⟩ := h.routed m₅ ⟨m₃, m₄, happroach, hdelay, hwrite⟩
  have hplain₆ := (hapart.pins.makes m₅ _ m₆ hplain₅ hroute).device_eq
  obtain ⟨m₇, hswitch, -⟩ := (Offset.fits_of_mem hspace Offset.scr (by decide)).write_ends
    Scr.bothOn (hplain₆ ▸ Device.responds_plain)
  have hswitchOn : ctrl.switchOn routePins m₄ = .ok () m₇ :=
    (bind_of_ok hwrite).trans ((bind_of_ok hroute).trans hswitch)
  obtain ⟨m₈, hstages⟩ : ∃ m₈, runStages .configuring
      [⟨.enabled, ctrl.switchOn routePins⟩, ⟨.enabled, ctrl.announce⟩] m₄ =
        .ok (.ok (), .enabled) m₈ :=
    ⟨_, (runStages_cons_of_ok hswitchOn).trans rfl⟩
  refine ⟨m₈, ?_⟩
  rw [bringUp_of_settled hne happroach hdelay, complete, bind_of_ok hstages]
  rfl

end Controller

/-! ### Attempts in a row -/

/-- Attempts to bring up a new controller that failed, from a start on: the controllers and machines
that any number of them leads to. Each attempt has a clock gate and pins of its own, and what lies
outside the registers may change between attempts. -/
inductive Retries (line : Line) (start : Machine) : Controller → Machine → Prop
  /-- No attempt was made. -/
  | start : Retries line start ⟨line, .uninitialized⟩ start
  /-- Something happens elsewhere. -/
  | elsewhere {ctrl : Controller} {m m' : Machine} (before : Retries line start ctrl m)
      (other : m.Becomes line.base blockSize unchanged m') : Retries line start ctrl m'
  /-- An attempt fails. -/
  | failed {ctrl ctrl' : Controller} {m m' : Machine} {power : Power} {routePins : Firmware Unit}
      {cause : Failure} (before : Retries line start ctrl m) (apart : Apart line power routePins)
      (attempt : ctrl.bringUp power routePins m = .ok (.error (.failure cause), ctrl') m') :
      Retries line start ctrl' m'

variable {ctrl ctrl' : Controller}

/-- **The phase tells what failed attempts left in the registers.** -/
theorem Retries.untouched_or_configured (hplain : start.device = .plain)
    (h : Retries line start ctrl m) :
    (ctrl = ⟨line, .uninitialized⟩ ∧ start.Becomes line.base blockSize unchanged m) ∨
      (ctrl = ⟨line, .configuring⟩ ∧ start.Becomes line.base blockSize line.configured m) := by
  induction h with
  | start => exact .inl ⟨rfl, .of_memory_eq hplain rfl⟩
  | elsewhere _ other ih =>
    exact ih.imp (.imp_right fun hbecomes ↦ hbecomes.trans other)
      (.imp_right fun hbecomes ↦ hbecomes.trans other)
  | failed _ apart attempt ih =>
    rcases ih with ⟨rfl, hbecomes⟩ | ⟨rfl, hbecomes⟩
    · have hne : Phase.uninitialized ≠ .enabled := by decide
      rcases Controller.bringUp_eq_failure_of_apart hne hbecomes.device_eq apart attempt with
        ⟨-, rfl, huntouched, -⟩ | ⟨-, rfl, hconfigured⟩
      · exact .inl ⟨rfl, hbecomes.trans huntouched⟩
      · exact .inr ⟨rfl, hbecomes.trans hconfigured⟩
    · have hne : Phase.configuring ≠ .enabled := by decide
      rcases Controller.bringUp_eq_failure_of_apart hne hbecomes.device_eq apart attempt with
        ⟨-, rfl, huntouched, -⟩ | ⟨-, rfl, hconfigured⟩
      · exact .inr ⟨rfl, hbecomes.trans huntouched⟩
      · exact .inr ⟨rfl, (hbecomes.trans hconfigured).congr fun offset b _ ↦
          line.configured_configured offset b⟩

/-- Whatever failed attempts left, what comes up from there is what comes up from the start. -/
theorem Retries.as_from_start (hplain : start.device = .plain) (h : Retries line start ctrl m) :
    ctrl.line = line ∧ ctrl.phase ≠ .enabled ∧ m.device = .plain ∧
      ∀ m', m.Becomes line.base blockSize line.enabled m' →
        start.Becomes line.base blockSize line.enabled m' := by
  rcases h.untouched_or_configured hplain with ⟨rfl, hbecomes⟩ | ⟨rfl, hbecomes⟩
  · exact ⟨rfl, (by decide : Phase.uninitialized ≠ .enabled), hbecomes.device_eq,
      fun m' hup ↦ hbecomes.trans hup⟩
  · exact ⟨rfl, (by decide : Phase.configuring ≠ .enabled), hbecomes.device_eq,
      fun m' hup ↦ (hbecomes.trans hup).congr fun offset b _ ↦
        line.enabled_configured offset b⟩

/-- In a configured block, transmitter and receiver are off. -/
theorem load_control_of_configured (h : m.Becomes line.base blockSize line.configured m') :
    m'.memory.load (line.base + Offset.scr) .half = 0 := by
  have hlow : m'.memory.byte (line.base + Offset.scr) = 0 := h.byte_eq Offset.scr (by decide)
  have hhigh : m'.memory.byte (line.base + Offset.scr + 1) = 0 := by
    rw [UInt64.add_assoc]
    exact h.byte_eq (Offset.scr + 1) (by decide)
  rw [Memory.load, Width.bytes, Memory.bytesAt, Memory.bytesAt, Memory.bytesAt, hlow, hhigh]
  rfl

/-- **However many attempts failed, one in which clock, reset and pins succeed brings the controller
up as a single one would.** The first part is about the next attempt if it fails. At clock or reset,
the controller stays as it was and its registers are not accessed; at the pins, it stays where its
rate is next, with transmitter and receiver off. The second part is about the next attempt if clock,
reset and pins succeed. -/
theorem retried_as_once (hplain : start.device = .plain) (hspace : line.InSpace)
    (h : Retries line start ctrl m) (hapart : Apart line power routePins) :
    (∀ cause ctrl' m',
      ctrl.bringUp power routePins m = .ok (.error (.failure cause), ctrl') m' →
        (power.FailsTo m cause m' ∧ ctrl' = ctrl ∧
            ∃ es, m.Leads es m' ∧ ∀ e ∈ es, e.Avoids line.base blockSize) ∨
          (∃ m₁, ctrl.Reaches power m m₁ ∧ routePins m₁ = .error (.failure cause) m') ∧
            ctrl' = ⟨line, .configuring⟩ ∧
            m'.memory.load (line.base + Offset.scr) .half = 0) ∧
      (ctrl.Succeeds power routePins m →
        ∃ m', ctrl.bringUp power routePins m = .ok (.ok (), ⟨line, .enabled⟩) m' ∧
          start.Becomes line.base blockSize line.enabled m' ∧
          ∀ first power₁ routePins₁ ctrl₁ once, start.Becomes line.base blockSize unchanged first →
            Apart line power₁ routePins₁ →
            (⟨line, .uninitialized⟩ : Controller).bringUp power₁ routePins₁ first =
              .ok (.ok (), ctrl₁) once →
            once.Becomes line.base blockSize unchanged m') := by
  obtain ⟨rfl, hne, hplain₀, hbrings⟩ := h.as_from_start hplain
  constructor
  · intro cause ctrl' m' hrun
    rcases Controller.bringUp_eq_failure_of_apart hne hplain₀ hapart hrun with
      ⟨hfails, hctrl, -, hes⟩ | ⟨hreaches, hctrl, hconfigured⟩
    · exact .inl ⟨hfails, hctrl, hes⟩
    · exact .inr ⟨hreaches, hctrl, load_control_of_configured hconfigured⟩
  · intro hsucceeds
    obtain ⟨m', hrun⟩ := Controller.bringUp_of_succeeds hne hspace hplain₀ hapart hsucceeds
    have hup := hbrings m' (Controller.becomes_enabled hne hapart hplain₀ hrun)
    refine ⟨m', hrun, hup, fun first power₁ routePins₁ ctrl₁ once hfirst hapart₁ honce ↦ ?_⟩
    have hnew : (⟨ctrl.line, .uninitialized⟩ : Controller).phase ≠ .enabled :=
      (by decide : Phase.uninitialized ≠ .enabled)
    have hsingle := Controller.becomes_enabled hnew hapart₁ hfirst.device_eq honce
    exact (hfirst.trans hsingle).agree hup

/-! ### A controller that was used before

The console, on plain memory that has all bits of the extended mode set. The first attempt fails at
the reset and the second one at the pins.
-/

section UsedConsole

open Controller

/-- Plain memory with the extended mode of the console filled, and a clock that winds. -/
def usedConsole : Machine where
  memory := Memory.empty.storeByte (freshConsole.line.base + Offset.semr) 0xFF
  watchdog := ⟨200, 0, 0, 0⟩

/-- The clock runs, but the reset is not released. -/
def resetHeld : Power :=
  ⟨pure (), fail (.timeout "scif reset monitor" 5)⟩

/-- Pins that are not there. -/
def noPins : Firmware Unit :=
  fail (.badOperand "pins")

/-- Whether an attempt failed, on a clock that winds and with reads left for another one. -/
def failedInTime (outcome : Except Stop Unit) (m : Machine) : Bool :=
  match outcome with
  | .error (.failure _) =>
    m.clock.passing == .winds && decide (m.watchdog.busReads + 3 ≤ m.watchdog.limit)
  | _ => false

theorem failedInTime_iff {outcome : Except Stop Unit} : failedInTime outcome m = true ↔
    (∃ cause, outcome = .error (.failure cause)) ∧ m.clock.passing = .winds ∧
      m.watchdog.busReads + 3 ≤ m.watchdog.limit := by
  unfold failedInTime
  split
  · simp
  · next hne => simpa using fun cause hcause ↦ absurd hcause (hne cause)

/-- With clock and reset in place and a clock that winds, an attempt succeeds. -/
theorem succeeds_in_place (hwinds : m.clock.passing = .winds)
    (hreads : m.watchdog.busReads + 3 ≤ m.watchdog.limit) :
    ctrl.Succeeds powerInPlace (pure ()) m where
  powered := ⟨m, m, rfl, rfl, hreads⟩
  settled m₁ happroach := by
    obtain ⟨es, hleads, -⟩ := (emits_approach (.pure _) (.pure _)).of_ok happroach
    exact delay_ends_of_winds (hleads.passing_eq.trans hwinds)
  routed m₁ _ := ⟨m₁, rfl⟩

/-- The third attempt succeeds, and leaves what a first one would have left. -/
theorem retried_as_once_third :
    ∃ ctrl m m' once, Retries freshConsole.line usedConsole ctrl m ∧
      ctrl = ⟨freshConsole.line, .configuring⟩ ∧
      m.memory.load (freshConsole.line.base + Offset.scr) .half = 0 ∧
      ctrl.bringUp powerInPlace (pure ()) m = .ok (.ok (), ⟨freshConsole.line, .enabled⟩) m' ∧
      freshConsole.bringUp powerInPlace (pure ()) usedConsole =
        .ok (.ok (), ⟨freshConsole.line, .enabled⟩) once ∧
      once.Becomes freshConsole.line.base blockSize unchanged m' := by
  have hspace : freshConsole.line.InSpace := by decide
  have hinPlace : Apart freshConsole.line powerInPlace (pure ()) := ⟨.pure _, .pure _, .pure _⟩
  have hnoPins : Apart freshConsole.line powerInPlace noPins := ⟨.pure _, .pure _, .fail _⟩
  have hheld : Apart freshConsole.line resetHeld (pure ()) := ⟨.pure _, .fail _, .pure _⟩
  have hnone : Retries freshConsole.line usedConsole freshConsole usedConsole := .start
  -- the first attempt, at the reset
  have hfirst : freshConsole.bringUp resetHeld (pure ()) usedConsole =
      .ok (.error (.failure (.timeout "scif reset monitor" 5)), freshConsole) usedConsole := rfl
  have hretries : Retries freshConsole.line usedConsole freshConsole usedConsole :=
    .failed hnone hheld hfirst
  -- the second one, at the pins
  have hsecond : (freshConsole.bringUp powerInPlace noPins).endsWith (fun r ↦ failedInTime r.1)
      usedConsole = true := by
    decide +kernel
  obtain ⟨⟨outcome, ctrl⟩, m, hrun, htest⟩ := endsWith_iff.1 hsecond
  obtain ⟨⟨cause, rfl⟩, hwinds, hreads⟩ := failedInTime_iff.1 htest
  obtain ⟨⟨⟨⟩⟩ | ⟨_, _, ⟨⟩⟩, -⟩ | ⟨-, hctrl, hoff⟩ :=
    (retried_as_once rfl hspace hretries hnoPins).1 cause ctrl m hrun
  -- the third one, and a single one
  obtain ⟨once, honce, -⟩ :=
    (retried_as_once rfl hspace hnone hinPlace).2 (succeeds_in_place rfl (by decide))
  obtain ⟨m', hthird, -, hsame⟩ := (retried_as_once rfl hspace (.failed hretries hnoPins hrun)
    hinPlace).2 (succeeds_in_place hwinds hreads)
  exact ⟨ctrl, m, m', once, .failed hretries hnoPins hrun, hctrl, hoff, hthird, honce,
    hsame usedConsole _ _ _ once (.of_memory_eq rfl rfl) hinPlace honce⟩

end UsedConsole

end BringUp.Serial
