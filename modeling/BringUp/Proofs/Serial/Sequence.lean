import BringUp.Proofs.Machine.Script
import BringUp.Proofs.Serial.Retry

/-!
# The way up, access by access

What a controller does of its own on the way up is a script: a fixed list of register accesses and
one delay, which the line decides but for the three values that are read. `Controller.script` writes
it out. An attempt first has clock and reset turned on, then follows the script, then has the pins
routed, and then switches transmitter and receiver on; each of these begins only once the one before
it has ended (`exists_bringUp`).

How an attempt went is its `Course` (`exists_course`). The device may answer as it likes, and clock,
reset and pins may end as they like. Only if a device leaves an access without a response, or the
settle wait never ends, is the script cut short.

That the rate is programmed with everything off, and settles so, is then a matter of the script
alone (`script_held`).
-/

namespace BringUp.Serial

open Firmware

/-- Clock and reset, in this order. -/
def Power.turnOn (power : Power) : Firmware Unit := do
  power.startClock
  power.releaseReset

namespace Controller

variable {ctrl : Controller} {power : Power} {routePins : Firmware Unit} {m m' : Machine}

/-! ### The script -/

/-- A register read. -/
def saw (ctrl : Controller) (offset : UInt64) (value : UInt32) : Event :=
  .busRead (layout.width offset) (ctrl.line.base + offset) value

/-- A register write. -/
def wrote (ctrl : Controller) (offset : UInt64) (value : UInt32) : Event :=
  .busWrite (layout.width offset) (ctrl.line.base + offset) value

/-- The accesses that clear stale flags and set framing and rate, for the values that the two status
registers and the extended mode are read as. -/
def settings (ctrl : Controller) (status lineStatus mode : UInt32) : List Event :=
  [ctrl.saw Offset.fsr status, ctrl.wrote Offset.fsr 0,
    ctrl.saw Offset.lsr lineStatus, ctrl.wrote Offset.lsr 0,
    ctrl.wrote Offset.scr 0, ctrl.wrote Offset.smr 0,
    ctrl.saw Offset.semr mode, ctrl.wrote Offset.semr (mode &&& ~~~0x30),
    ctrl.wrote Offset.brr ctrl.line.divisor.toUInt32] ++
  if ctrl.line.modulated then
    [ctrl.wrote Offset.semr (mode ||| 0x30), ctrl.wrote Offset.brr ctrl.line.duty.toUInt32]
  else []

/-- The accesses and the delay on the way up: everything off, the settings, the settle wait, and the
FIFOs running. -/
def script (ctrl : Controller) (status lineStatus mode : UInt32) : List Event :=
  ctrl.wrote Offset.scr 0 :: ctrl.wrote Offset.fcr 0x06 ::
    (ctrl.settings status lineStatus mode ++
      [.delay ctrl.line.settleMicros, ctrl.wrote Offset.fcr 0])

/-- What comes before the settle wait, but for clock and reset. -/
def program (ctrl : Controller) : Firmware Unit := do
  ctrl.block.write Offset.scr 0
  ctrl.block.write Offset.fcr Fcr.bothReset
  ctrl.frame
  ctrl.setRate

/-- What the controller does of its own before the pins are routed. -/
def prepare (ctrl : Controller) : Firmware Unit := do
  ctrl.program
  delay ctrl.line.settleMicros
  ctrl.block.write Offset.fcr 0

/-- A list of steps is the script for some values. -/
def Scripted (ctrl : Controller) (steps : List Event) : Prop :=
  ∃ status lineStatus mode, steps = ctrl.script status lineStatus mode

/-- An extended mode that was read is carried whole by a write, whatever became of its modulation
bits. -/
theorem truncate_mode {mode : UInt32} (h : Width.byte.truncate mode = mode) :
    Width.byte.truncate (mode &&& ~~~0x30) = mode &&& ~~~0x30 ∧
      Width.byte.truncate (mode ||| 0x30) = mode ||| 0x30 := by
  have hkeep : ∀ {v : UInt32}, v.toNat < 256 → Width.byte.truncate v = v := fun hv ↦
    UInt32.toNat.inj ((UInt32.toNat_mod _ _).trans (Nat.mod_eq_of_lt hv))
  have hlt : mode.toNat < 256 := by
    rw [← h, Width.truncate, UInt32.toNat_mod]
    exact Nat.mod_lt _ (by decide)
  refine ⟨hkeep ?_, hkeep ?_⟩
  · rw [UInt32.toNat_and]
    exact Nat.lt_of_le_of_lt Nat.and_le_left hlt
  · rw [UInt32.toNat_or]
    exact Nat.or_lt_two_pow (n := 8) hlt (by decide)

section Follows

variable {α : Type} {scripts : List Event → Prop} {done : List Event} {offset : UInt64}
  {value carried : UInt32}

theorem follows_write {f : Unit → Firmware α}
    (h : (layout.width offset).truncate value = carried)
    (hf : Follows scripts (done ++ [ctrl.wrote offset carried]) (f ())) :
    Follows scripts done (ctrl.block.write offset value >>= f) :=
  Block.follows_write (h ▸ rfl) hf

theorem follows_last_write (h : (layout.width offset).truncate value = carried)
    (hscript : scripts (done ++ [ctrl.wrote offset carried])) :
    Follows scripts done (ctrl.block.write offset value : Firmware Unit) := by
  have hwrite : Follows scripts done (ctrl.block.write offset value >>= Pure.pure) :=
    follows_write h (.pure hscript)
  rwa [bind_pure] at hwrite

theorem follows_read {f : UInt32 → Firmware α}
    (hf : ∀ v, (layout.width offset).truncate v = v →
      Follows scripts (done ++ [ctrl.saw offset v]) (f v)) :
    Follows scripts done (ctrl.block.read offset >>= f) :=
  Block.follows_read hf

end Follows

/-- **The controller follows its script.** -/
theorem follows_prepare : Follows ctrl.Scripted [] ctrl.prepare := by
  simp only [prepare, program, frame, setRate, bind_assoc]
  refine follows_write rfl (follows_write rfl ?_)
  refine follows_read fun status _ ↦ follows_write rfl ?_
  refine follows_read fun lineStatus _ ↦ follows_write rfl ?_
  refine follows_write rfl (follows_write rfl ?_)
  refine follows_read fun mode hmode ↦ follows_write (truncate_mode hmode).1 ?_
  refine follows_write (Width.truncate_byte _) ?_
  -- with modulation there are two more writes
  rcases hmodulated : ctrl.line.modulated with - | -
  · simp only [Bool.false_eq_true, if_false]
    refine .log (.delay (follows_last_write rfl ⟨status, lineStatus, mode, ?_⟩))
    rw [script, settings, hmodulated]
    rfl
  · simp only [if_true, bind_assoc, and_not_or_self]
    refine follows_write (truncate_mode hmode).2 (follows_write (Width.truncate_byte _) ?_)
    refine .log (.delay (follows_last_write rfl ⟨status, lineStatus, mode, ?_⟩))
    rw [script, settings, hmodulated]
    rfl

/-! ### Going on to the end -/

/-- Nothing holds the controller up: its device responds, the watchdog allows for its three reads,
and the settle wait ends. -/
structure Unhindered (ctrl : Controller) (m : Machine) : Prop where
  /-- The device responds. -/
  responds : m.device.Responds
  /-- The reads are allowed. -/
  reads : m.watchdog.busReads + 3 ≤ m.watchdog.limit
  /-- The settle wait ends. -/
  settles : ∀ m₁, ctrl.program m = .ok () m₁ →
    ∃ m₂, delay ctrl.line.settleMicros m₁ = .ok () m₂

section Ends

variable (hspace : ctrl.line.InSpace)
include hspace

theorem concludes_program : Concludes 3 ctrl.program := by
  have hrest : Concludes 3 (do ctrl.frame; ctrl.setRate : Firmware Unit) :=
    (concludes_frame hspace).bind fun _ ↦ concludes_setRate hspace
  have hoff := (concludes_off hspace).bind fun _ ↦ hrest
  rwa [bind_assoc] at hoff

/-- A controller that nothing holds up gets to its pins. -/
theorem prepare_ends (h : ctrl.Unhindered m) : ∃ m', ctrl.prepare m = .ok () m' := by
  obtain ⟨_, m₁, hprogram, hdevice₁, -, -⟩ := concludes_program hspace m h.responds h.reads
  obtain ⟨m₂, hdelay⟩ := h.settles m₁ hprogram
  obtain ⟨es, hleads, -⟩ :=
    (Emits.delay (p := fun _ ↦ True) trivial fun _ ↦ trivial).of_ok hdelay
  have hresponds : m₂.device.Responds := by
    rw [hleads.device_eq, hdevice₁]
    exact h.responds
  obtain ⟨m', hwrite, -⟩ :=
    (Offset.fits_of_mem hspace Offset.fcr (by decide)).write_ends 0 hresponds
  refine ⟨m', ?_⟩
  rw [prepare, bind_of_ok hprogram, bind_of_ok hdelay]
  exact hwrite

end Ends

/-! ### The way up in turn -/

section Observe

variable {α β : Type} {x : Firmware α} {y : Firmware β}

theorem observe_of_ok {a : α} (h : x m = .ok a m') : observe x m = .ok (.ok a) m' := by
  rw [observe, h]

theorem observe_of_error {s : Stop} (h : x m = .error s m') :
    observe x m = .ok (.error s) m' := by
  rw [observe, h]

theorem observe_congr {x' : Firmware α} {m₁ : Machine} (h : x m = x' m₁) :
    observe x m = observe x' m₁ := by
  rw [observe, observe, h]

end Observe

/-- The way up without its stages. -/
def inTurn (ctrl : Controller) (power : Power) (routePins : Firmware Unit) : Firmware Unit := do
  power.turnOn
  ctrl.prepare
  routePins
  ctrl.block.write Offset.scr Scr.bothOn
  ctrl.announce

theorem forM_stages :
    (ctrl.stages power routePins).forM Stage.action = ctrl.inTurn power routePins := by
  have hlast : (do ctrl.announce; pure PUnit.unit : Firmware PUnit) = ctrl.announce := bind_pure _
  simp only [stages, List.forM_eq_forM, List.forM_cons, List.forM_nil, quiesce, enable, inTurn,
    prepare, program, Power.turnOn, bind_assoc, hlast]

/-- A run of stages ends as its actions do in turn. -/
theorem runStages_of_observe {stages : List Stage} {r : Except Stop Unit}
    (h : observe (stages.forM Stage.action) m = .ok r m') (phase : Phase) :
    ∃ phase', runStages phase stages m = .ok (r, phase') m' := by
  induction stages generalizing phase m with
  | nil =>
    obtain ⟨rfl, rfl⟩ : Except.ok () = r ∧ m = m' := EStateM.Result.ok.inj h
    exact ⟨phase, rfl⟩
  | cons stage rest ih =>
    have hcons : (stage :: rest).forM Stage.action =
        (do stage.action; rest.forM Stage.action : Firmware PUnit) := rfl
    rw [hcons] at h
    rcases hrun : stage.action m with ⟨_, m₁⟩ | ⟨s, m₁⟩
    · rw [observe_congr (bind_of_ok hrun)] at h
      rw [runStages_cons_of_ok hrun]
      exact ih h _
    · rw [observe_of_error (bind_of_error hrun)] at h
      obtain ⟨rfl, rfl⟩ : Except.error s = r ∧ m₁ = m' := EStateM.Result.ok.inj h
      refine ⟨phase, ?_⟩
      rw [runStages, bind_of_ok (observe_of_error hrun)]
      rfl

/-- An attempt ends as the way up does in turn. -/
theorem exists_bringUp (hne : ctrl.phase ≠ .enabled) {r : Except Stop Unit}
    (h : observe (ctrl.inTurn power routePins) m = .ok r m') :
    ∃ ctrl', ctrl.bringUp power routePins m = .ok (r, ctrl') m' := by
  rw [← forM_stages] at h
  obtain ⟨phase', hstages⟩ := runStages_of_observe h ctrl.phase
  rw [bringUp, if_neg hne]
  exact ⟨_, bind_of_ok hstages⟩

/-! ### The course of an attempt -/

/-- Between two machines no register of the controller was accessed. -/
def Spared (ctrl : Controller) (m m' : Machine) : Prop :=
  ∃ es, m.Leads es m' ∧ ∀ e ∈ es, e.Avoids ctrl.line.base blockSize

/-- How an attempt went, with how it ended and the machine that it left. -/
inductive Course (ctrl : Controller) (power : Power) (routePins : Firmware Unit) (m : Machine) :
    Except Stop Unit → Machine → Prop
  /-- Clock or reset stopped, and nothing of the controller was accessed. -/
  | unpowered {s m'} (hpower : power.turnOn m = .error s m') (hspared : ctrl.Spared m m') :
    Course ctrl power routePins m (.error s) m'
  /-- Something held the controller up inside of its script, and the attempt did not return. -/
  | cutShort {s m₁ m' done rest} (hpower : power.turnOn m = .ok () m₁) (hspared : ctrl.Spared m m₁)
    (hdone : m₁.Does done m') (hscript : ctrl.Scripted (done ++ rest))
    (hhindered : ¬ ctrl.Unhindered m₁) (hlost : ∀ cause, s ≠ .failure cause) :
    Course ctrl power routePins m (.error s) m'
  /-- The script was followed to its end, and then the pins stopped. -/
  | unrouted {s m₁ m₂ m' steps} (hpower : power.turnOn m = .ok () m₁) (hspared : ctrl.Spared m m₁)
    (hdone : m₁.Does steps m₂) (hscript : ctrl.Scripted steps)
    (hpins : routePins m₂ = .error s m') (hspared' : ctrl.Spared m₂ m') :
    Course ctrl power routePins m (.error s) m'
  /-- The pins were routed, and then the device did not respond, and the attempt did not return. -/
  | unanswered {s m₁ m₂ m' steps} (hpower : power.turnOn m = .ok () m₁)
    (hspared : ctrl.Spared m m₁) (hdone : m₁.Does steps m₂) (hscript : ctrl.Scripted steps)
    (hpins : routePins m₂ = .ok () m') (hspared' : ctrl.Spared m₂ m')
    (hhindered : ¬ ctrl.Unhindered m₁) (hlost : ∀ cause, s ≠ .failure cause) :
    Course ctrl power routePins m (.error s) m'
  /-- The pins were routed, and transmitter and receiver switched on. -/
  | complete {m₁ m₂ m₃ m' steps} (hpower : power.turnOn m = .ok () m₁) (hspared : ctrl.Spared m m₁)
    (hdone : m₁.Does steps m₂) (hscript : ctrl.Scripted steps)
    (hpins : routePins m₂ = .ok () m₃) (hspared' : ctrl.Spared m₂ m₃)
    (hon : m₃.Does [ctrl.wrote Offset.scr 0x30] m') : Course ctrl power routePins m (.ok ()) m'

theorem unfailing_prepare : Unfailing ctrl.prepare := by
  have hprogram : Unfailing ctrl.program :=
    .bind (ctrl.block.failsWith_write _ _) fun _ ↦ .bind (ctrl.block.failsWith_write _ _) fun _ ↦
      .bind unfailing_frame fun _ ↦ unfailing_setRate
  exact .bind hprogram fun _ ↦ .bind (.delay _) fun _ ↦ ctrl.block.failsWith_write _ _

/-- What the controller does of its own is its script, or the beginning of it if it is held up; then
nobody is told. -/
theorem prepare_cases (hspace : ctrl.line.InSpace) (m : Machine) :
    (∃ m' steps, ctrl.prepare m = .ok () m' ∧ m.Does steps m' ∧ ctrl.Scripted steps) ∨
      ∃ s m' done rest, ctrl.prepare m = .error s m' ∧ (∀ cause, s ≠ .failure cause) ∧
        m.Does done m' ∧ ctrl.Scripted (done ++ rest) ∧ ¬ ctrl.Unhindered m := by
  rcases hrun : ctrl.prepare m with ⟨_, m'⟩ | ⟨s, m'⟩
  · obtain ⟨es, hleads, -, hscript⟩ := follows_prepare.of_ok hrun
    rw [stepMonitor_after, List.nil_append] at hscript
    exact .inl ⟨m', _, rfl, ⟨es, hleads, rfl⟩, hscript⟩
  · obtain ⟨es, hleads, -, rest, hscript⟩ := follows_prepare.of_error hrun
    rw [stepMonitor_after, List.nil_append] at hscript
    refine .inr ⟨s, m', _, rest, rfl, ?_, ⟨es, hleads, rfl⟩, hscript, fun h ↦ ?_⟩
    · rintro cause rfl
      exact unfailing_prepare m cause m' hrun
    · obtain ⟨_, hends⟩ := prepare_ends hspace h
      rw [hrun] at hends
      nomatch hends

/-- Transmitter and receiver are switched on in one access, unless the device does not respond. -/
theorem switch_cases (hspace : ctrl.line.InSpace) (m : Machine) :
    (∃ m', (do ctrl.block.write Offset.scr Scr.bothOn; ctrl.announce : Firmware Unit) m =
        .ok () m' ∧ m.Does [ctrl.wrote Offset.scr 0x30] m') ∨
      ∃ s, (do ctrl.block.write Offset.scr Scr.bothOn; ctrl.announce : Firmware Unit) m =
        .error s m ∧ (∀ cause, s ≠ .failure cause) ∧ ¬ m.device.Responds := by
  rcases hrun : (ctrl.block.write Offset.scr Scr.bothOn : Firmware Unit) m with ⟨_, m'⟩ | ⟨s, m'⟩
  · refine .inl ⟨_, bind_of_ok hrun, _, (Block.write_eq_ok hrun).trans (.record m' rfl), ?_⟩
    rfl
  · obtain ⟨rfl, rfl⟩ := Block.write_eq_error hrun
    refine .inr ⟨_, bind_of_error hrun, nofun, fun hresponds ↦ ?_⟩
    have hfits := Offset.fits_of_mem hspace Offset.scr (by decide)
    obtain ⟨_, hends, -⟩ := hfits.write_ends Scr.bothOn hresponds
    rw [show ctrl.block = ⟨ctrl.line.base, layout⟩ from rfl, hends] at hrun
    nomatch hrun

/-- **An attempt takes one of its courses.** -/
theorem exists_course (hspace : ctrl.line.InSpace)
    (hclock : Emits (Event.Avoids ctrl.line.base blockSize) power.startClock)
    (hreset : Emits (Event.Avoids ctrl.line.base blockSize) power.releaseReset)
    (hpins : Emits (Event.Avoids ctrl.line.base blockSize) routePins) (m : Machine) :
    ∃ r m', observe (ctrl.inTurn power routePins) m = .ok r m' ∧
      ctrl.Course power routePins m r m' := by
  have hturnOn : Emits (Event.Avoids ctrl.line.base blockSize) power.turnOn :=
    hclock.bind fun _ ↦ hreset
  rcases hpower : power.turnOn m with ⟨_, m₁⟩ | ⟨s, m'⟩
  · have hspared : ctrl.Spared m m₁ := hturnOn.of_ok hpower
    obtain ⟨m₂, steps, hprepare, hdone, hscript⟩ |
        ⟨s, m', done, rest, hprepare, hlost, hdone, hscript, hno⟩ := prepare_cases hspace m₁
    · rcases hroute : routePins m₂ with ⟨_, m₃⟩ | ⟨s, m'⟩
      · have hspared' : ctrl.Spared m₂ m₃ := hpins.of_ok hroute
        have hlast : ctrl.inTurn power routePins m =
            (do ctrl.block.write Offset.scr Scr.bothOn; ctrl.announce : Firmware Unit) m₃ := by
          rw [inTurn, bind_of_ok hpower, bind_of_ok hprepare, bind_of_ok hroute]
        obtain ⟨m', hswitch, hon⟩ | ⟨s, hswitch, hlost, hno⟩ := switch_cases hspace m₃
        · exact ⟨.ok (), m', observe_of_ok (hlast.trans hswitch),
            .complete hpower hspared hdone hscript hroute hspared' hon⟩
        · refine ⟨.error s, m₃, observe_of_error (hlast.trans hswitch),
            .unanswered hpower hspared hdone hscript hroute hspared' (fun h ↦ hno ?_) hlost⟩
          -- the device is the one that responded before
          obtain ⟨es, hleads, -⟩ := hdone
          obtain ⟨es', hleads', -⟩ := hspared'
          rw [hleads'.device_eq, hleads.device_eq]
          exact h.responds
      · refine ⟨.error s, m', observe_of_error ?_,
          .unrouted hpower hspared hdone hscript hroute (hpins.of_error hroute)⟩
        rw [inTurn, bind_of_ok hpower, bind_of_ok hprepare, bind_of_error hroute]
    · refine ⟨.error s, m', observe_of_error ?_, .cutShort hpower hspared hdone hscript hno hlost⟩
      rw [inTurn, bind_of_ok hpower, bind_of_error hprepare]
  · exact ⟨.error s, m', observe_of_error (bind_of_error hpower),
      .unpowered hpower (hturnOn.of_error hpower)⟩

/-! ### What the script keeps -/

section Held

variable {status lineStatus mode value : UInt32} {offset : UInt64} {done pre post : List Event}
  {e : Event}

/-- Transmitter and receiver are off, and both FIFOs are held in reset. -/
def HeldDown (ctrl : Controller) (done : List Event) : Prop :=
  lastWritten (ctrl.line.base + Offset.scr) done = some 0 ∧
    lastWritten (ctrl.line.base + Offset.fcr) done = some 0x06

/-- The event programs the rate. -/
def SetsRate (ctrl : Controller) (e : Event) : Prop :=
  ∃ value, e = ctrl.wrote Offset.semr value ∨ e = ctrl.wrote Offset.brr value

/-- The event switches neither transmitter nor receiver on, and leaves the FIFOs alone. -/
structure Harmless (ctrl : Controller) (e : Event) : Prop where
  /-- Neither is switched on. -/
  scr : e.writtenTo? (ctrl.line.base + Offset.scr) = none ∨
    e.writtenTo? (ctrl.line.base + Offset.scr) = some 0
  /-- The FIFOs are left alone. -/
  fcr : e.writtenTo? (ctrl.line.base + Offset.fcr) = none

theorem Harmless.saw : ctrl.Harmless (ctrl.saw offset value) :=
  ⟨.inl rfl, rfl⟩

theorem Harmless.wrote (hscr : offset ≠ Offset.scr) (hfcr : offset ≠ Offset.fcr) :
    ctrl.Harmless (ctrl.wrote offset value) := by
  refine ⟨.inl ?_, ?_⟩
  · rw [Controller.wrote, Event.writtenTo?_busWrite_add, if_neg hscr]
  · rw [Controller.wrote, Event.writtenTo?_busWrite_add, if_neg hfcr]

theorem Harmless.off : ctrl.Harmless (ctrl.wrote Offset.scr 0) := by
  refine ⟨.inr ?_, ?_⟩
  · rw [Controller.wrote, Event.writtenTo?_busWrite_add, if_pos rfl]
  · rw [Controller.wrote, Event.writtenTo?_busWrite_add, if_neg (by decide)]

namespace HeldDown

/-- The first two writes hold the controller down. -/
theorem start : ctrl.HeldDown [ctrl.wrote Offset.scr 0, ctrl.wrote Offset.fcr 0x06] := by
  have hsplit : [ctrl.wrote Offset.scr 0, ctrl.wrote Offset.fcr 0x06] =
      [ctrl.wrote Offset.scr 0] ++ [ctrl.wrote Offset.fcr 0x06] := rfl
  rw [HeldDown, hsplit, lastWritten_append, lastWritten_append]
  simp only [lastWritten_singleton, wrote, Event.writtenTo?_busWrite_add]
  decide

theorem snoc (h : ctrl.HeldDown done) (he : ctrl.Harmless e) : ctrl.HeldDown (done ++ [e]) := by
  refine ⟨?_, ?_⟩
  · rw [lastWritten_append, lastWritten_singleton]
    rcases he.scr with hnone | hoff
    · rw [hnone, Option.none_or, h.1]
    · rw [hoff, Option.some_or]
  · rw [lastWritten_append, lastWritten_singleton, he.fcr, Option.none_or, h.2]

/-- Harmless events keep the controller down. -/
theorem append (h : ctrl.HeldDown done) {es : List Event} (hes : ∀ e ∈ es, ctrl.Harmless e) :
    ctrl.HeldDown (done ++ es) := by
  induction es generalizing done with
  | nil => rwa [List.append_nil]
  | cons e es ih =>
    obtain ⟨he, hrest⟩ := List.forall_mem_cons.1 hes
    rw [List.append_cons]
    exact ih (h.snoc he) hrest

end HeldDown

theorem settings_harmless :
    ∀ e ∈ ctrl.settings status lineStatus mode, ctrl.Harmless e ∧ e.isBus = true := by
  have hsaw : ∀ offset value, ctrl.Harmless (ctrl.saw offset value) ∧
      (ctrl.saw offset value).isBus = true := fun _ _ ↦ ⟨.saw, rfl⟩
  have hwrote : ∀ offset value, offset ≠ Offset.scr → offset ≠ Offset.fcr →
      ctrl.Harmless (ctrl.wrote offset value) ∧ (ctrl.wrote offset value).isBus = true :=
    fun _ _ hscr hfcr ↦ ⟨.wrote hscr hfcr, rfl⟩
  have hoff : ctrl.Harmless (ctrl.wrote Offset.scr 0) ∧
      (ctrl.wrote Offset.scr 0).isBus = true := ⟨.off, rfl⟩
  refine List.forall_mem_append.2 ⟨?_, ?_⟩
  · simp only [List.forall_mem_cons]
    refine ⟨hsaw _ _, hwrote _ _ ?_ ?_, hsaw _ _, hwrote _ _ ?_ ?_, hoff, hwrote _ _ ?_ ?_,
      hsaw _ _, hwrote _ _ ?_ ?_, hwrote _ _ ?_ ?_, nofun⟩
    all_goals decide
  · split
    · simp only [List.forall_mem_cons]
      refine ⟨hwrote _ _ ?_ ?_, hwrote _ _ ?_ ?_, nofun⟩
      all_goals decide
    · nofun

/-- The rate is programmed through two registers only. -/
theorem offset_of_setsRate (h : ctrl.SetsRate (ctrl.wrote offset value)) :
    offset = Offset.semr ∨ offset = Offset.brr := by
  obtain ⟨_, h | h⟩ := h
  · exact .inl ((UInt64.add_right_inj _).1 (Event.busWrite.inj h).2.1)
  · exact .inr ((UInt64.add_right_inj _).1 (Event.busWrite.inj h).2.1)

/-- What is done on the way up, by its place. -/
theorem script_cases (h : ctrl.script status lineStatus mode = pre ++ e :: post) :
    (e = ctrl.wrote Offset.scr 0 ∨ e = ctrl.wrote Offset.fcr 0x06 ∨ e = ctrl.wrote Offset.fcr 0) ∨
      ∃ before, before ⊆ ctrl.settings status lineStatus mode ∧
        pre = [ctrl.wrote Offset.scr 0, ctrl.wrote Offset.fcr 0x06] ++ before ∧
        (e ∈ ctrl.settings status lineStatus mode ∨
          e = .delay ctrl.line.settleMicros ∧ post = [ctrl.wrote Offset.fcr 0]) := by
  rw [script] at h
  obtain ⟨-, h₁⟩ | ⟨pre₁, rfl, h₁⟩ := List.cons_eq_append_iff.1 h
  · exact .inl (.inl (List.cons.inj h₁).1)
  obtain ⟨-, h₂⟩ | ⟨before, rfl, h₂⟩ := List.cons_eq_append_iff.1 h₁
  · exact .inl (.inr (.inl (List.cons.inj h₂).1))
  -- past the settings, or among them
  obtain ⟨after, rfl, h₃⟩ | ⟨after, hsettings, h₃⟩ := List.append_eq_append_iff.1 h₂
  · obtain ⟨rfl, h₄⟩ | ⟨after₁, rfl, h₄⟩ := List.cons_eq_append_iff.1 h₃
    · rw [List.append_nil]
      exact .inr ⟨_, List.Subset.refl _, rfl, .inr (List.cons.inj h₄)⟩
    · obtain ⟨-, h₅⟩ | ⟨_, -, h₅⟩ := List.cons_eq_append_iff.1 h₄
      · exact .inl (.inr (.inr (List.cons.inj h₅).1))
      · nomatch (List.append_eq_nil_iff.1 h₅.symm).2
  · have hbefore : before ⊆ ctrl.settings status lineStatus mode := by
      rw [hsettings]
      exact List.subset_append_left _ _
    refine .inr ⟨before, hbefore, rfl, ?_⟩
    obtain ⟨rfl, h₄⟩ | ⟨_, rfl, -⟩ := List.cons_eq_append_iff.1 h₃
    · exact .inr ⟨(List.cons.inj h₄).1.symm, (List.cons.inj h₄).2.symm⟩
    · refine .inl ?_
      rw [hsettings]
      exact List.mem_append_right _ (List.mem_cons_self ..)

/-- **The rate is programmed, and settles, with everything off and the FIFOs held in reset.** There
is one wait; whatever programs the rate comes before it, and after it the FIFOs are let go. -/
theorem script_held (h : ctrl.script status lineStatus mode = pre ++ e :: post) :
    (ctrl.SetsRate e → ctrl.HeldDown pre) ∧
      ∀ micros, e = .delay micros → micros = ctrl.line.settleMicros ∧ ctrl.HeldDown pre ∧
        post = [ctrl.wrote Offset.fcr 0] := by
  obtain (rfl | rfl | rfl) | ⟨before, hbefore, rfl, hplace⟩ := script_cases h
  · exact ⟨fun hrate ↦ absurd (offset_of_setsRate hrate) (by decide), nofun⟩
  · exact ⟨fun hrate ↦ absurd (offset_of_setsRate hrate) (by decide), nofun⟩
  · exact ⟨fun hrate ↦ absurd (offset_of_setsRate hrate) (by decide), nofun⟩
  · have hdown := HeldDown.start.append fun e he ↦ (settings_harmless e (hbefore he)).1
    refine ⟨fun _ ↦ hdown, ?_⟩
    rintro micros rfl
    obtain hsettings | ⟨hdelay, hpost⟩ := hplace
    · nomatch (settings_harmless _ hsettings).2
    · exact ⟨Event.delay.inj hdelay, hdown, hpost⟩

end Held

/-- **An attempt goes up in sequence.** It takes one of its courses; and with everything off and the
FIFOs held in reset, a script programs the rate and then waits once. -/
theorem bringUp_in_sequence (hne : ctrl.phase ≠ .enabled) (hspace : ctrl.line.InSpace)
    (hclock : Emits (Event.Avoids ctrl.line.base blockSize) power.startClock)
    (hreset : Emits (Event.Avoids ctrl.line.base blockSize) power.releaseReset)
    (hpins : Emits (Event.Avoids ctrl.line.base blockSize) routePins) (m : Machine) :
    (∃ r ctrl' m', ctrl.bringUp power routePins m = .ok (r, ctrl') m' ∧
      ctrl.Course power routePins m r m') ∧
    ∀ status lineStatus mode pre e post,
      ctrl.script status lineStatus mode = pre ++ e :: post →
        (ctrl.SetsRate e → ctrl.HeldDown pre) ∧
        ∀ micros, e = .delay micros → micros = ctrl.line.settleMicros ∧ ctrl.HeldDown pre ∧
          post = [ctrl.wrote Offset.fcr 0] := by
  obtain ⟨r, m', hrun, hcourse⟩ := exists_course hspace hclock hreset hpins m
  obtain ⟨ctrl', hbringUp⟩ := exists_bringUp hne hrun
  exact ⟨⟨r, ctrl', m', hbringUp, hcourse⟩, fun _ _ _ _ _ _ ↦ script_held⟩

theorem emits_program : Emits (fun _ ↦ True) ctrl.program :=
  .bind (ctrl.block.emits_write trivial) fun _ ↦ .bind (ctrl.block.emits_write trivial) fun _ ↦
    .bind (emits_frame (fun _ _ ↦ trivial) trivial) fun _ ↦ emits_setRate fun _ _ ↦ trivial

/-- On a clock that winds, the settle wait ends. -/
theorem settles_of_winds (hwinds : m.clock.passing = .winds) {m₁ : Machine}
    (hprogram : ctrl.program m = .ok () m₁) :
    ∃ m₂, delay ctrl.line.settleMicros m₁ = .ok () m₂ := by
  obtain ⟨es, hleads, -⟩ := emits_program.of_ok hprogram
  exact delay_ends_of_winds (hleads.passing_eq.trans hwinds)

/-- On a plain device and a clock that winds, nothing holds a controller up. -/
theorem unhindered_of_winds (hdevice : m.device = .plain) (hwinds : m.clock.passing = .winds)
    (hreads : m.watchdog.busReads + 3 ≤ m.watchdog.limit) : ctrl.Unhindered m where
  responds := hdevice ▸ Device.responds_plain
  reads := hreads
  settles _ hprogram := settles_of_winds hwinds hprogram

/-- With clock, reset and pins in place, the console goes the whole way. -/
theorem bringUp_in_sequence_in_place : ∃ ctrl' m₁ m' status lineStatus mode,
    freshConsole.bringUp powerInPlace (pure ()) usedConsole = .ok (.ok (), ctrl') m' ∧
      usedConsole.Does (freshConsole.script status lineStatus mode) m₁ ∧
      m₁.Does [freshConsole.wrote Offset.scr 0x30] m' := by
  obtain ⟨⟨r, ctrl', m', hrun, hcourse⟩, -⟩ := bringUp_in_sequence (m := usedConsole)
    (show freshConsole.phase ≠ .enabled by decide) (by decide)
    (show Emits _ powerInPlace.startClock from .pure _)
    (show Emits _ powerInPlace.releaseReset from .pure _) (.pure ())
  have hunhindered : freshConsole.Unhindered usedConsole :=
    unhindered_of_winds rfl rfl (by decide)
  cases hcourse with
  | unpowered hpower => nomatch hpower
  | cutShort hpower _ _ _ hhindered =>
    obtain rfl : usedConsole = _ := (EStateM.Result.ok.inj hpower).2
    exact absurd hunhindered hhindered
  | unrouted _ _ _ _ hpins => nomatch hpins
  | unanswered hpower _ _ _ _ _ hhindered =>
    obtain rfl : usedConsole = _ := (EStateM.Result.ok.inj hpower).2
    exact absurd hunhindered hhindered
  | complete hpower _ hdone hscript hpins _ hon =>
    obtain rfl : usedConsole = _ := (EStateM.Result.ok.inj hpower).2
    obtain ⟨status, lineStatus, mode, rfl⟩ := hscript
    obtain rfl := (EStateM.Result.ok.inj hpins).2
    exact ⟨ctrl', _, m', status, lineStatus, mode, hrun, hdone, hon⟩

end Controller

end BringUp.Serial
