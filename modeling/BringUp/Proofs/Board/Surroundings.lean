import BringUp.Proofs.Board.Hooks
import BringUp.Proofs.Machine.Failing
import BringUp.Proofs.Serial.Contents

/-!
# Clock, reset and pins of the console

How the handshakes with the clock generator and the routing of the pins can end. A handshake that
ends has just read the monitor register with the channel's bit as wanted, and one that fails has run
out of time; neither accesses anything but the clock generator. Routing the pins does not fail, and
the last thing that it does to the bus is to close the write protection again. All three leave a
serial controller alone that lies elsewhere.
-/

namespace BringUp.Board

open Firmware

variable {m m' : Machine} {cause : Failure}

namespace ClockGate

variable {gate : ClockGate} {control monitor : UInt64} {want : Bool} {what : String}

/-- The bit of the gate's channel in a register. -/
def bit (gate : ClockGate) : UInt32 :=
  1 <<< gate.channel.toUInt32

/-- A reading of a register of the clock generator. -/
def monitorRead (gate : ClockGate) (offset : UInt64) (value : UInt32) : Event :=
  .busRead .word (gate.base + offset) value

theorem controlBit_eq_ok {bit : UInt32} (h : controlBit gate.channel = .ok bit) :
    bit = gate.bit := by
  unfold controlBit exactShiftLeft at h
  split at h
  · exact (Except.ok.inj h).symm
  · cases h

/-- The test of a handshake. -/
def followed (gate : ClockGate) (monitor : UInt64) (bit : UInt32) (want : Bool) : Firmware Bool := do
  return ((← gate.block.read monitor) &&& bit != 0) == want

theorem unfailing_followed (bit : UInt32) : Unfailing (gate.followed monitor bit want) :=
  .bind (gate.block.failsWith_read monitor) fun _ ↦ .pure _

theorem emits_followed (hmonitor : monitor ∈ [clockMonitor, resetMonitor]) (bit : UInt32) :
    Emits (Event.Within gate.footprint) (gate.followed monitor bit want) :=
  .bind (Block.emits_read_within (fun _ ↦ id) hmonitor) fun _ ↦ .pure _

/-- A handshake that ended has read the monitor as wanted, and accessed nothing else. -/
theorem handshake_eq_ok (hcontrol : control ∈ [clockControl, resetControl])
    (hmonitor : monitor ∈ [clockMonitor, resetMonitor])
    (h : gate.handshake control monitor want what m = .ok () m') :
    ∃ es value, m.Leads es m' ∧ (∀ e ∈ es, e.Within gate.footprint) ∧
      gate.monitorRead monitor value ∈ es ∧ (value &&& gate.bit != 0) = want := by
  obtain ⟨bit, hbit, h⟩ := liftExcept_bind_eq_ok h
  rw [controlBit_eq_ok hbit] at h
  obtain ⟨guard, -, h⟩ := liftExcept_bind_eq_ok h
  have hwrite : Emits (Event.Within gate.footprint)
      (gate.block.writeWithGuard control gate.bit guard : Firmware Unit) :=
    Block.emits_write_within (fun _ ↦ id) hcontrol _
  obtain ⟨_, m₁, es, hes, hwithin, h⟩ := hwrite.bind_eq_ok h
  obtain ⟨outcome, m₂, hattempt, h⟩ := bind_eq_ok_iff.1 h
  rcases attempt_eq_ok hattempt with ⟨_, rfl, hwait⟩ | ⟨cause, rfl, -⟩
  · obtain rfl : m₂ = m' := (EStateM.Result.ok.inj h).2
    obtain ⟨m₃, hbusy, htrue⟩ := waitUntil_eq_ok hwait
    obtain ⟨polls, hpolls, hwithin'⟩ :=
      hbusy.leads (emits_followed hmonitor gate.bit) fun _ ↦ trivial
    obtain ⟨value, m₄, hread, hpure⟩ := bind_eq_ok_iff.1 htrue
    obtain ⟨hwant, rfl⟩ := EStateM.Result.ok.inj hpure
    have hlast : Event.Within gate.footprint (gate.monitorRead monitor value) :=
      List.mem_append_left _ (List.mem_map_of_mem hmonitor)
    refine ⟨es ++ (polls ++ [gate.monitorRead monitor value]), value,
      hes.trans (hpolls.trans (Block.read_eq_ok hread).1), ?_, by simp, ?_⟩
    · exact List.forall_mem_append.2 ⟨hwithin, List.forall_mem_append.2
        ⟨hwithin', List.forall_mem_singleton.2 hlast⟩⟩
    · exact beq_iff_eq.1 hwant
  · obtain ⟨_, _, -, hfail⟩ := bind_eq_ok_iff.1 h
    cases hfail

/-- A handshake fails only when its time has run out. -/
theorem failsWith_handshake (control monitor : UInt64) (want : Bool) (what : String) :
    FailsWith (fun cause ↦ cause.isTimeout = true) (gate.handshake control monitor want what) := by
  have hshift : ∀ (a : UInt32) (n : UInt8) (cause : Failure),
      exactShiftLeft a n ≠ .error (.failure cause) := by
    intro a n cause
    unfold exactShiftLeft
    split <;> nofun
  refine .bind (.liftExcept (hshift _ _)) fun bit ↦ .bind (.liftExcept (hshift _ _)) fun guard ↦ ?_
  refine .bind (gate.block.failsWith_write _ _) fun _ ↦ ?_
  have hwait : FailsWith (fun cause ↦ cause.isTimeout = true)
      (waitUntil gate.deadline what (gate.followed monitor bit want)) :=
    .waitUntil (unfailing_followed bit) _ fun _ ↦ rfl
  exact hwait.attempt_bind (fun _ ↦ .pure _) fun _ hcause ↦
    .bind (.log _ _) fun _ ↦ .fail hcause

/-! ### The two handshakes -/

theorem startClock_eq_ok (h : gate.startClock m = .ok () m') :
    ∃ es value, m.Leads es m' ∧ (∀ e ∈ es, e.Within gate.footprint) ∧
      gate.monitorRead clockMonitor value ∈ es ∧ value &&& gate.bit ≠ 0 := by
  obtain ⟨_, m₁, hhandshake, hlog⟩ := bind_eq_ok_iff.1 h
  obtain ⟨es, value, hes, hwithin, hmem, hbit⟩ :=
    handshake_eq_ok (by decide) (by decide) hhandshake
  cases hlog
  refine ⟨_, value, hes.trans (.record m₁ rfl), ?_, List.mem_append_left _ hmem, bne_iff_ne.1 hbit⟩
  exact List.forall_mem_append.2 ⟨hwithin, List.forall_mem_singleton.2 trivial⟩

theorem releaseReset_eq_ok (h : gate.releaseReset m = .ok () m') :
    ∃ es value, m.Leads es m' ∧ (∀ e ∈ es, e.Within gate.footprint) ∧
      gate.monitorRead resetMonitor value ∈ es ∧ value &&& gate.bit = 0 := by
  obtain ⟨_, m₁, hhandshake, hlog⟩ := bind_eq_ok_iff.1 h
  obtain ⟨es, value, hes, hwithin, hmem, hbit⟩ :=
    handshake_eq_ok (by decide) (by decide) hhandshake
  cases hlog
  refine ⟨_, value, hes.trans (.record m₁ rfl), ?_, List.mem_append_left _ hmem,
    bne_eq_false_iff_eq.1 hbit⟩
  exact List.forall_mem_append.2 ⟨hwithin, List.forall_mem_singleton.2 trivial⟩

theorem failsWith_startClock :
    FailsWith (fun cause ↦ cause.isTimeout = true) gate.startClock :=
  .bind (failsWith_handshake _ _ _ _) fun _ ↦ .log _ _

theorem failsWith_releaseReset :
    FailsWith (fun cause ↦ cause.isTimeout = true) gate.releaseReset :=
  .bind (failsWith_handshake _ _ _ _) fun _ ↦ .log _ _

end ClockGate

namespace Pins

variable {pins : Pins}

/-- Closing the write protection of the function registers. -/
def relock (pins : Pins) : Event :=
  .busWrite .word (pins.base + Protection.offset) Protection.blocked

theorem unfailing_route : Unfailing pins.route := by
  refine .bind (pins.block.failsWith_writeInTurn _ _ _) fun _ ↦ ?_
  refine .bind (.bind (pins.fuseBlock.failsWith_read _) fun _ ↦ .pure _) fun package ↦ ?_
  refine .bind (.log _ _) fun _ ↦ .bind (pins.block.failsWith_write _ _) fun _ ↦ ?_
  refine .bind (pins.block.failsWith_update _ _ _) fun _ ↦ ?_
  exact .bind (pins.block.failsWith_writeInTurn _ _ _) fun _ ↦ .log _ _

/-- **The last bus access of routing closes the write protection.** -/
theorem route_eq_ok (h : pins.route m = .ok () m') :
    ∃ es, m.Leads es m' ∧ ∃ front, es.filter Event.isBus = front ++ [pins.relock] := by
  have hread : ∀ (b : Block) (offset : UInt64),
      Emits (fun _ ↦ True) (b.read offset : Firmware UInt32) :=
    fun _ _ ↦ Block.emits_read fun _ ↦ trivial
  have hwrite : ∀ (b : Block) (offset : UInt64) (value : UInt32),
      Emits (fun _ ↦ True) (b.write offset value : Firmware Unit) :=
    fun _ _ _ ↦ Block.emits_write trivial
  obtain ⟨_, m₁, es₁, hes₁, -, h⟩ := (Emits.bind (hwrite _ _ _) fun _ ↦ hwrite _ _ _).bind_eq_ok h
  obtain ⟨package, m₂, es₂, hes₂, -, h⟩ := (Emits.bind (hread _ _) fun _ ↦ .pure _).bind_eq_ok h
  obtain ⟨_, m₃, es₃, hes₃, -, h⟩ := (Emits.log (p := fun _ ↦ True) trivial).bind_eq_ok h
  obtain ⟨_, m₄, es₄, hes₄, -, h⟩ := (hwrite _ _ _).bind_eq_ok h
  obtain ⟨_, m₅, es₅, hes₅, -, h⟩ := (Emits.bind (hread _ _) fun _ ↦ hwrite _ _ _).bind_eq_ok h
  obtain ⟨_, m₇, hclose, hlog⟩ := bind_eq_ok_iff.1 h
  obtain ⟨_, m₆, es₆, hes₆, -, hblock⟩ := (hwrite _ _ _).bind_eq_ok hclose
  cases hlog
  have hlast : m₇.Leads [.log .info "pfc: console pins routed"]
      (m₇.record (.log .info "pfc: console pins routed")) := .record m₇ rfl
  have hall := hes₁.trans (hes₂.trans (hes₃.trans (hes₄.trans (hes₅.trans (hes₆.trans
    ((Block.write_eq_ok hblock).trans hlast))))))
  refine ⟨_, hall, (es₁ ++ (es₂ ++ (es₃ ++ (es₄ ++ (es₅ ++ es₆))))).filter Event.isBus, ?_⟩
  simp only [List.filter_append, List.append_assoc]
  rfl

end Pins

/-! ### Apart from a serial controller -/

section Apart

variable {base : UInt64} {size : Nat}

namespace ClockGate

variable {gate : ClockGate} (hapart : ∀ a ∈ gate.footprint, ¬ a.Meets base size)
include hapart

theorem leavesAlone_handshake {control monitor : UInt64}
    (hcontrol : control ∈ [clockControl, resetControl])
    (hmonitor : monitor ∈ [clockMonitor, resetMonitor]) (want : Bool) (what : String) :
    LeavesAlone base size (gate.handshake control monitor want what) := by
  refine .bind (.liftExcept _) fun bit ↦ .bind (.liftExcept _) fun guard ↦ ?_
  refine .bind (Block.leavesAlone_write_within hapart hcontrol _) fun _ ↦ ?_
  refine .bind (.attempt (.waitUntil (.bind (Block.leavesAlone_read_within hapart hmonitor)
    fun _ ↦ .pure _) _ _)) fun outcome ↦ ?_
  cases outcome with
  | ok _ => exact .pure _
  | error cause => exact .bind (.log _ _) fun _ ↦ .fail cause

theorem leavesAlone_startClock : LeavesAlone base size gate.startClock :=
  .bind (leavesAlone_handshake hapart (by decide) (by decide) _ _) fun _ ↦ .log _ _

theorem leavesAlone_releaseReset : LeavesAlone base size gate.releaseReset :=
  .bind (leavesAlone_handshake hapart (by decide) (by decide) _ _) fun _ ↦ .log _ _

end ClockGate

theorem Pins.leavesAlone_route {pins : Pins} (hapart : ∀ a ∈ pins.footprint, ¬ a.Meets base size) :
    LeavesAlone base size pins.route := by
  obtain ⟨hfuses, hblock⟩ := List.forall_mem_append.1 hapart
  have hpackage : LeavesAlone base size pins.package :=
    .bind (Block.leavesAlone_read_within hfuses (by decide)) fun _ ↦ .pure _
  have hprotect : ∀ value, LeavesAlone base size
      (pins.block.write Protection.offset value : Firmware Unit) :=
    Block.leavesAlone_write_within hblock (by decide)
  have hclose : LeavesAlone base size (do
      pins.block.writeInTurn Protection.offset 0 Protection.blocked
      Firmware.log .info "pfc: console pins routed") :=
    .bind (.bind (hprotect _) fun _ ↦ hprotect _) fun _ ↦ .log _ _
  refine .bind (.bind (hprotect _) fun _ ↦ hprotect _) fun _ ↦ ?_
  refine .bind hpackage fun package ↦ .bind (.log _ _) fun _ ↦ ?_
  -- the registers of either group lie elsewhere
  rcases package.pins_eq with h | h
  · rw [h]
    exact .bind (Block.leavesAlone_write_within hblock (by decide) _) fun _ ↦
      .bind (.bind (Block.leavesAlone_read_within hblock (by decide)) fun _ ↦
        Block.leavesAlone_write_within hblock (by decide) _) fun _ ↦ hclose
  · rw [h]
    exact .bind (Block.leavesAlone_write_within hblock (by decide) _) fun _ ↦
      .bind (.bind (Block.leavesAlone_read_within hblock (by decide)) fun _ ↦
        Block.leavesAlone_write_within hblock (by decide) _) fun _ ↦ hclose

/-- **Clock gate and pins whose registers lie elsewhere are apart from a serial controller.** -/
theorem apart_of_footprints {line : Serial.Line} {gate : ClockGate} {pins : Pins}
    (hgate : ∀ a ∈ gate.footprint, ¬ a.Meets line.base Serial.blockSize)
    (hpins : ∀ a ∈ pins.footprint, ¬ a.Meets line.base Serial.blockSize) :
    Serial.Apart line gate.power pins.route where
  clock := ClockGate.leavesAlone_startClock hgate
  reset := ClockGate.leavesAlone_releaseReset hgate
  pins := Pins.leavesAlone_route hpins

end Apart

end BringUp.Board
