import BringUp.Board.Platform
import BringUp.Proofs.Serial.Controller
import BringUp.Proofs.Vendor.Call

/-!
# Boot hooks, by their events

No boot hook writes a register of the memory attribute table, except that `finishBoot` clears the
table on a cold boot. The console hooks write no register at all: clock gate, pins and serial
controller are reached over the bus.

`Hook` lists what can be called on a platform, and `Hook.run` makes one call. A call that stops
leaves the platform as it was.
-/

namespace BringUp.Board

open Firmware Pma

variable {p : Event → Prop}

/-! ### Blocks of the board -/

namespace ClockGate

variable {gate : ClockGate}

/-- What the clock gate accesses: it writes the two control registers and reads the two monitor
registers. -/
def footprint (gate : ClockGate) : List Access :=
  gate.block.footprint [clockMonitor, resetMonitor] [clockControl, resetControl]

theorem emits_handshake (hp : ∀ e : Event, e.Within gate.footprint → p e) {control monitor : UInt64}
    (hcontrol : control ∈ [clockControl, resetControl])
    (hmonitor : monitor ∈ [clockMonitor, resetMonitor]) (want : Bool) (what : String) :
    Emits p (gate.handshake control monitor want what) := by
  refine .bind (.liftExcept _) fun bit ↦ .bind (.liftExcept _) fun guard ↦ ?_
  refine .bind (Block.emits_write_within hp hcontrol _) fun _ ↦ ?_
  refine .bind (.attempt (.waitUntil ?_ ?_ _ _)) ?_
  · exact .bind (Block.emits_read_within hp hmonitor) fun _ ↦ .pure _
  · exact fun _ ↦ hp _ trivial
  · intro outcome
    cases outcome with
    | ok _ => exact .pure _
    | error cause => exact .bind (.log (hp _ trivial)) fun _ ↦ .fail cause

theorem emits_startClock (hp : ∀ e : Event, e.Within gate.footprint → p e) :
    Emits p gate.startClock :=
  .bind (emits_handshake hp (by decide) (by decide) _ _) fun _ ↦ .log (hp _ trivial)

theorem emits_releaseReset (hp : ∀ e : Event, e.Within gate.footprint → p e) :
    Emits p gate.releaseReset :=
  .bind (emits_handshake hp (by decide) (by decide) _ _) fun _ ↦ .log (hp _ trivial)

end ClockGate

/-- The console is on either group. -/
theorem Package.pins_eq (package : Package) : package.pins = .group6 ∨ package.pins = .group38 := by
  cases package with
  | second => exact .inl rfl
  | other _ => exact .inr rfl

namespace Pins

/-- What routing the pins accesses: the fuses, the write protection, and mode and function register
of either group. -/
def footprint (pins : Pins) : List Access :=
  pins.fuseBlock.footprint [Fuse.device] [] ++
    pins.block.footprint [PinRoute.mode6, PinRoute.mode38] [Protection.offset, PinRoute.mode6,
      PinRoute.mode38, PinRoute.function6, PinRoute.function38]

theorem emits_route {pins : Pins} (hp : ∀ e : Event, e.Within pins.footprint → p e) :
    Emits p pins.route := by
  have hfuses : ∀ e : Event, e.Within (pins.fuseBlock.footprint [Fuse.device] []) → p e :=
    fun e he ↦ hp e (he.mono (List.subset_append_left _ _))
  have hpins : ∀ e : Event, e.Within (pins.block.footprint [PinRoute.mode6, PinRoute.mode38]
      [Protection.offset, PinRoute.mode6, PinRoute.mode38, PinRoute.function6,
        PinRoute.function38]) → p e :=
    fun e he ↦ hp e (he.mono (List.subset_append_right _ _))
  have hpackage : Emits p pins.package :=
    .bind (Block.emits_read_within hfuses (by decide)) fun _ ↦ .pure _
  refine .bind (Block.emits_writeInTurn hpins (by decide) _ _) fun _ ↦ ?_
  refine .bind hpackage fun package ↦ .bind (.log (hp _ trivial)) fun _ ↦ ?_
  have hclose : Emits p (do
      pins.block.writeInTurn Protection.offset 0 Protection.blocked
      Firmware.log .info "pfc: console pins routed") :=
    .bind (Block.emits_writeInTurn hpins (by decide) _ _) fun _ ↦ .log (hp _ trivial)
  -- either group has its registers in the footprint
  rcases package.pins_eq with h | h
  · rw [h]
    exact .bind (Block.emits_write_within hpins (by decide) _) fun _ ↦
      .bind (Block.emits_update hpins (by decide) (by decide) _ _) fun _ ↦ hclose
  · rw [h]
    exact .bind (Block.emits_write_within hpins (by decide) _) fun _ ↦
      .bind (Block.emits_update hpins (by decide) (by decide) _ _) fun _ ↦ hclose

end Pins

namespace SecondLevelCache

/-- What turning the second-level cache on accesses. -/
def footprint (base : UInt64) : List Access :=
  Block.footprint ⟨base, layout⟩ [control] [control]

theorem emits_enable {base : UInt64} (hp : ∀ e : Event, e.Within (footprint base) → p e) :
    Emits p (enable base) := by
  refine .bind (Block.emits_read_within hp (by decide)) fun word ↦ .ite ?_ (.pure _)
  exact .bind (Block.emits_update hp (by decide) (by decide) _ _) fun _ ↦ .log (hp _ trivial)

end SecondLevelCache

/-! ### Hooks of the platform -/

namespace Platform

variable {pl : Platform}

/-- What opening a console accesses beside the serial controller. -/
def surroundings (pl : Platform) : List Access :=
  pl.clockGate.footprint ++ pl.pins.footprint

theorem emits_openConsoleAt {base clock : UInt64} {baud : UInt32}
    (hp : ∀ e : Event, e.Within pl.surroundings → p e)
    (hsetup : ∀ e : Event, e.Within (Serial.setup base) → p e)
    (hcontrol : ∀ value, p (Serial.controlWrite base value)) :
    Emits p (pl.openConsoleAt base clock baud) := by
  have hgate : ∀ e : Event, e.Within pl.clockGate.footprint → p e :=
    fun e he ↦ hp e (he.mono (List.subset_append_left _ _))
  refine .ite (.fail _) ?_
  cases hline : Serial.Line.of? base clock baud with
  | error cause => exact .fail cause
  | ok line =>
    obtain ⟨rfl, -, -⟩ := Serial.Line.of?_eq_ok hline
    refine .bind (Serial.Controller.emits_bringUp hsetup hcontrol ?_ ?_ ?_) fun r ↦ ?_
    · exact ClockGate.emits_startClock hgate
    · exact ClockGate.emits_releaseReset hgate
    · exact Pins.emits_route fun e he ↦ hp e (he.mono (List.subset_append_right _ _))
    · exact .bind (.liftExcept _) fun _ ↦ .bind (.log (hp _ trivial)) fun _ ↦ .pure _

/-- A console that was opened leaves the table of regions alone. -/
theorem regions_of_openConsoleAt {base clock : UInt64} {baud : UInt32} {m m' : Machine}
    {pl' : Platform} (h : pl.openConsoleAt base clock baud m = .ok pl' m') :
    pl'.regions = pl.regions := by
  unfold openConsoleAt at h
  split at h
  · cases h
  · cases hline : Serial.Line.of? base clock baud with
    | error cause =>
      rw [hline] at h
      cases h
    | ok line =>
      rw [hline] at h
      obtain ⟨r, m₁, -, hr⟩ := bind_eq_ok_iff.1 h
      obtain ⟨_, m₂, -, hlift⟩ := bind_eq_ok_iff.1 hr
      obtain ⟨_, m₃, -, hlog⟩ := bind_eq_ok_iff.1 hlift
      cases hlog
      rfl

theorem emits_beginBoot (cold : Bool) : Emits Vendor.Aside (pl.beginBoot cold) :=
  .bind (.csrClear (Vendor.aside_csrRead _) fun _ ↦ Vendor.aside_csrWrite rfl _) fun _ ↦
    .log (Vendor.aside_log _ _)

/-! ### Finishing boot -/

/-- Turns the caches on. -/
def enableCaches (pl : Platform) : Firmware Unit := do
  Vendor.enableCaches
  SecondLevelCache.enable pl.settings.cacheBase

/-- The table of regions once boot is finished. -/
def finalRegions (pl : Platform) (cold : Bool) : Firmware Table :=
  if cold then Table.clear else return pl.regions

/-- What is left of finishing boot once the caches are on. -/
def announce (pl : Platform) (cold : Bool) : Firmware Platform := do
  let regions ← pl.finalRegions cold
  log .info s!"platform: {pl.descriptor.name} ready"
  return { pl with regions }

theorem finishBoot_eq (pl : Platform) (cold : Bool) :
    pl.finishBoot cold = pl.enableCaches >>= fun _ ↦ pl.announce cold := by
  rw [enableCaches, bind_assoc]
  cases cold <;> rfl

theorem emits_enableCaches (haside : ∀ e, Vendor.Aside e → p e)
    (hcache : ∀ e : Event, e.Within (SecondLevelCache.footprint pl.settings.cacheBase) → p e) :
    Emits p pl.enableCaches :=
  .bind (Vendor.completes_enableCaches.emits.mono haside) fun _ ↦ SecondLevelCache.emits_enable hcache

theorem emits_announce {cold : Bool} (hlog : ∀ level text, p (.log level text))
    (hclear : cold = true → ∀ bank, ∀ e ∈ Table.clearEvents bank, p e) :
    Emits p (pl.announce cold) := by
  have hregions : Emits p (pl.finalRegions cold) := by
    cases cold with
    | false => exact .pure _
    | true => exact emits_of_runs fun bank ↦ ⟨_, _, Table.runs_clear bank, hclear rfl bank⟩
  exact .bind hregions fun _ ↦ .bind (.log (hlog _ _)) fun _ ↦ .pure _

theorem emits_finishBoot {cold : Bool} (haside : ∀ e, Vendor.Aside e → p e)
    (hcache : ∀ e : Event, e.Within (SecondLevelCache.footprint pl.settings.cacheBase) → p e)
    (hclear : cold = true → ∀ bank, ∀ e ∈ Table.clearEvents bank, p e) :
    Emits p (pl.finishBoot cold) := by
  rw [finishBoot_eq]
  refine .bind (emits_enableCaches haside hcache) fun _ ↦ ?_
  exact emits_announce (fun _ _ ↦ haside _ (Vendor.aside_log _ _)) hclear

/-- Of the platform, finishing boot changes the table at most. -/
theorem finishBoot_eq_ok {cold : Bool} {pl' : Platform} {m m' : Machine}
    (h : pl.finishBoot cold m = .ok pl' m') :
    ∃ regions m₁ m₂, pl.finalRegions cold m₁ = .ok regions m₂ ∧ pl' = { pl with regions } := by
  rw [finishBoot_eq] at h
  obtain ⟨_, m₁, -, h⟩ := bind_eq_ok_iff.1 h
  obtain ⟨regions, m₂, hregions, h⟩ := bind_eq_ok_iff.1 h
  obtain ⟨_, m₃, -, hpure⟩ := bind_eq_ok_iff.1 h
  exact ⟨regions, m₁, m₂, hregions, (pure_eq_ok_iff.1 hpure).1.symm⟩

/-- After a cold boot the table is cleared, and nothing stops that. -/
theorem runs_announce (pl : Platform) : ∃ text, ∀ bank, Runs (pl.announce true) bank
    (Table.clearEvents bank ++ [.log .info text]) (.ok { pl with regions := .empty }) :=
  ⟨_, fun bank ↦ (Table.runs_clear bank).bind ((runs_log _ _ _).bind (runs_pure _ _))⟩

/-- A vendor call runs as it is answered. -/
theorem runs_call {c : Vendor.Call} {bank : CsrFile} {es : List Event} {reply : Vendor.Reply}
    {t' : Table} (h : Runs (c.answer pl.regions) bank es (.ok (reply, t'))) :
    Runs (pl.call c.extension c.function c.args) bank es (.ok (reply, { pl with regions := t' })) := by
  rw [← es.append_nil]
  exact h.bind (runs_pure _ _)

end Platform

/-! ### Calls on a platform -/

namespace Platform

/-- Platform and machine after an action on behalf of the platform; one that stops leaves the
platform as it was. -/
def settle (pl : Platform) (x : Firmware Platform) (m : Machine) : Platform × Machine :=
  match x m with
  | .ok pl' m' => (pl', m')
  | .error _ m' => (pl, m')

variable {pl : Platform} {x : Firmware Platform} {m m' : Machine}

theorem settle_of_ok {pl' : Platform} (h : x m = .ok pl' m') : pl.settle x m = (pl', m') := by
  rw [settle, h]

theorem settle_of_error {s : Stop} (h : x m = .error s m') : pl.settle x m = (pl, m') := by
  rw [settle, h]

/-- The outcome as a status code comes with the same platform and machine. -/
theorem settle_status (x : Firmware Platform) (m : Machine) :
    pl.settle (return (← pl.status x).2) m = pl.settle x m := by
  have hsnd : ∀ {code pl' m'}, pl.status x m = .ok (code, pl') m' →
      pl.settle (return (← pl.status x).2) m = (pl', m') := fun hs ↦ settle_of_ok (bind_of_ok hs)
  have hstop : ∀ {s m'}, attempt x m = .error s m' →
      pl.settle (return (← pl.status x).2) m = (pl, m') :=
    fun hs ↦ settle_of_error (bind_of_error (bind_of_error hs))
  -- only a failure becomes a status code, the other stops go through
  rcases h : x m with ⟨pl', m'⟩ | ⟨cause | op | _, m'⟩
  · have hattempt : attempt x m = .ok (.ok pl') m' := by rw [attempt, h]
    rw [settle_of_ok h]
    exact hsnd (show pl.status x m = .ok (Status.success, pl') m' from bind_of_ok hattempt)
  · have hattempt : attempt x m = .ok (.error cause) m' := by rw [attempt, h]
    rw [settle_of_error h]
    exact hsnd (show pl.status x m = .ok (cause.status, pl) m' from bind_of_ok hattempt)
  · have hattempt : attempt x m = .error (.overflow op) m' := by rw [attempt, h]
    rw [settle_of_error h, hstop hattempt]
  · have hattempt : attempt x m = .error .hang m' := by rw [attempt, h]
    rw [settle_of_error h, hstop hattempt]

end Platform

/-- What can be called on a platform. -/
inductive Hook
  /-- The hook before the console. -/
  | beginBoot (cold : Bool)
  /-- Open the console that the settings describe. -/
  | openConsole
  /-- The same, with the outcome as a status code. -/
  | openConsoleStatus
  /-- Open a console at a place. -/
  | openConsoleAt (base clock : UInt64) (baud : UInt32)
  /-- The same, with the outcome as a status code. -/
  | openConsoleAtStatus (base clock : UInt64) (baud : UInt32)
  /-- The hook after the console. -/
  | finishBoot (cold : Bool)
  /-- A vendor call. -/
  | call (c : Vendor.Call)

/-- Makes the call, and gives the platform afterwards. -/
def Hook.run (pl : Platform) : Hook → Firmware Platform
  | beginBoot cold => do
    pl.beginBoot cold
    return pl
  | openConsole => pl.openConsole
  | openConsoleStatus => return (← pl.status pl.openConsole).2
  | openConsoleAt base clock baud => pl.openConsoleAt base clock baud
  | openConsoleAtStatus base clock baud =>
    return (← pl.status (pl.openConsoleAt base clock baud)).2
  | finishBoot cold => pl.finishBoot cold
  | call c => return (← pl.call c.extension c.function c.args).2

/-- A platform and a machine to which calls on a fresh platform over the bank can lead. Between
calls everything may change but the registers. -/
inductive Reachable (settings : Settings) (bank : CsrFile) : Platform → Machine → Prop
  /-- Nothing was called yet. -/
  | start {m : Machine} (h : m.csrs = bank) : Reachable settings bank { settings } m
  /-- Something else happened that wrote no register. -/
  | elsewhere {pl : Platform} {m m' : Machine} (h : Reachable settings bank pl m)
      (hcsrs : m'.csrs = m.csrs) : Reachable settings bank pl m'
  /-- A call was made, and ended or stopped. -/
  | call {pl pl' : Platform} {m m' : Machine} (h : Reachable settings bank pl m) (hook : Hook)
      (hafter : pl.settle (hook.run pl) m = (pl', m')) : Reachable settings bank pl' m'

end BringUp.Board
