import BringUp.Proofs.Machine.Footprint
import BringUp.Serial.Controller

/-!
# Bringing a controller up, by its events

Bringing a serial controller up programs some of its registers (`setup`), switches transmitter and
receiver off and on (`controlWrite`), waits and logs, and does whatever the clock gate and the pin
routing do that it is given. A property of events that holds of all this holds of all that happens
on the way up. The control register is kept out of the footprint because it matters what is written
to it; the transmit register is not accessed at all.
-/

namespace BringUp

open Firmware

variable {p : Event → Prop}

/-! ### Register blocks -/

namespace Block

variable {b : Block} {reads writes : List UInt64} {offset : UInt64}

theorem emits_update (hp : ∀ e : Event, e.Within (b.footprint reads writes) → p e)
    (hread : offset ∈ reads) (hwrite : offset ∈ writes) (clear set : UInt32) :
    Emits p (b.update offset clear set : Firmware Unit) :=
  .bind (emits_read_within hp hread) fun _ ↦ emits_write_within hp hwrite _

theorem emits_writeInTurn (hp : ∀ e : Event, e.Within (b.footprint reads writes) → p e)
    (hwrite : offset ∈ writes) (first second : UInt32) :
    Emits p (b.writeInTurn offset first second : Firmware Unit) :=
  .bind (emits_write_within hp hwrite _) fun _ ↦ emits_write_within hp hwrite _

end Block

/-! ### The way up -/

namespace Serial

/-- Number of bytes of the register block. -/
def blockSize : Nat := 0x18

theorem Offset.toNat_lt_of_mem : ∀ offset ∈ Offset.all, offset.toNat < blockSize := by
  have hall : (Offset.all.all fun offset ↦ offset.toNat < blockSize) = true := by decide
  exact fun offset hmem ↦ of_decide_eq_true (List.all_eq_true.1 hall offset hmem)

/-- What bringing up a controller accesses of it, beside the control register: it reads the two
status registers and the extended mode, and writes these and the framing, rate and FIFO registers. -/
def setup (base : UInt64) : List Access :=
  Block.footprint ⟨base, layout⟩ [Offset.fsr, Offset.lsr, Offset.semr]
    [Offset.smr, Offset.brr, Offset.fsr, Offset.fcr, Offset.lsr, Offset.semr]

/-- A writing of the control register. -/
def controlWrite (base : UInt64) (value : UInt32) : Event :=
  .busWrite .half (base + Offset.scr) value

end Serial

namespace Serial.Controller

variable {ctrl : Controller}

/-- A run of stages emits what its stages emit. -/
theorem emits_runStages {stages : List Stage} (h : ∀ stage ∈ stages, Emits p stage.action)
    (phase : Phase) : Emits p (runStages phase stages) := by
  induction stages generalizing phase with
  | nil => exact .pure _
  | cons stage rest ih =>
    -- a stage that stops ends the run, one that ends is followed by the rest
    refine .bind (.observe (h stage List.mem_cons_self)) fun outcome ↦ ?_
    cases outcome with
    | ok _ => exact ih (fun s hs ↦ h s (List.mem_cons_of_mem stage hs)) _
    | error s => exact .pure _

variable {power : Power} {routePins : Firmware Unit}

theorem emits_quiesce (hp : ∀ e : Event, e.Within (setup ctrl.line.base) → p e)
    (hoff : p (controlWrite ctrl.line.base 0)) (hclock : Emits p power.startClock)
    (hreset : Emits p power.releaseReset) : Emits p (ctrl.quiesce power) := by
  refine .bind hclock fun _ ↦ .bind hreset fun _ ↦ ?_
  exact .bind (Block.emits_write hoff) fun _ ↦ Block.emits_write_within hp (by decide) _

theorem emits_frame (hp : ∀ e : Event, e.Within (setup ctrl.line.base) → p e)
    (hoff : p (controlWrite ctrl.line.base 0)) : Emits p ctrl.frame := by
  refine .bind (Block.emits_read_within hp (by decide)) fun _ ↦ ?_
  refine .bind (Block.emits_write_within hp (by decide) _) fun _ ↦ ?_
  refine .bind (Block.emits_read_within hp (by decide)) fun _ ↦ ?_
  refine .bind (Block.emits_write_within hp (by decide) _) fun _ ↦ ?_
  exact .bind (Block.emits_write hoff) fun _ ↦ Block.emits_write_within hp (by decide) _

theorem emits_setRate (hp : ∀ e : Event, e.Within (setup ctrl.line.base) → p e) :
    Emits p ctrl.setRate := by
  have hmode : ∀ value, Emits p (ctrl.block.write Offset.semr value : Firmware Unit) :=
    Block.emits_write_within hp (by decide)
  have hrate : ∀ value, Emits p (ctrl.block.write Offset.brr value : Firmware Unit) :=
    Block.emits_write_within hp (by decide)
  refine .bind (Block.emits_read_within hp (by decide)) fun old ↦ .bind (hmode _) fun _ ↦ ?_
  refine .bind (hrate _) fun _ ↦ .ite ?_ (.log (hp _ trivial))
  exact .bind (hmode _) fun _ ↦ .bind (hrate _) fun _ ↦ .log (hp _ trivial)

theorem emits_enable (hp : ∀ e : Event, e.Within (setup ctrl.line.base) → p e)
    (hon : p (controlWrite ctrl.line.base Scr.bothOn)) (hpins : Emits p routePins) :
    Emits p (ctrl.enable routePins) := by
  have hdelay : Emits p (delay ctrl.line.settleMicros) :=
    .delay (hp _ trivial) fun _ ↦ hp _ trivial
  refine .bind (emits_setRate hp) fun _ ↦ .bind hdelay fun _ ↦ ?_
  exact .bind (Block.emits_write_within hp (by decide) _) fun _ ↦ .bind hpins fun _ ↦
    Block.emits_write hon

/-- **Bringing up programs and switches the controller**, beside what clock, reset and pins do. -/
theorem emits_bringUp (hp : ∀ e : Event, e.Within (setup ctrl.line.base) → p e)
    (hcontrol : ∀ value, p (controlWrite ctrl.line.base value))
    (hclock : Emits p power.startClock) (hreset : Emits p power.releaseReset)
    (hpins : Emits p routePins) : Emits p (ctrl.bringUp power routePins) := by
  refine .ite (.pure _) (.bind (emits_runStages ?_ _) fun _ ↦ .pure _)
  simp only [stages, List.forall_mem_cons, List.not_mem_nil, false_imp_iff, implies_true, and_true]
  exact ⟨emits_quiesce hp (hcontrol 0) hclock hreset, emits_frame hp (hcontrol 0),
    emits_enable hp (hcontrol _) hpins, .log (hp _ trivial)⟩

end Serial.Controller

end BringUp
