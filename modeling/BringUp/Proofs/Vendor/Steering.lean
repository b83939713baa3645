import BringUp.Proofs.Pma.Writes
import BringUp.Proofs.Vendor.Call
import BringUp.Proofs.Vendor.Control

/-!
# Calls that reach the controls

Two commands overwrite a register that controls are in, and six switch a control. Such a call is
always served, whatever its operand, and its events are known exactly. Every other call writes
neither of the two registers, in whatever way it is answered. `Steering` has the three cases, and
`runs_answer_steering` says that there are no others.
-/

namespace BringUp

/-- The events of a run are events that the action emits. -/
theorem Firmware.Runs.forall_mem {α : Type} {x : Firmware α} {bank : CsrFile} {es : List Event}
    {r : Except Stop α} {p : Event → Prop} (h : Runs x bank es r) (hx : Emits p x) :
    ∀ e ∈ es, p e := by
  let m : Machine := { watchdog := default, csrs := bank }
  have hrun : x m = m.conclude es r := h m rfl
  have hleads : ∃ fs, m.Leads fs (m.perform es) ∧ ∀ e ∈ fs, p e := by
    cases r with
    | ok a => exact hx.of_ok hrun
    | error s => exact hx.of_error hrun
  obtain ⟨fs, hfs, hp⟩ := hleads
  have heq : es = fs :=
    List.append_cancel_left ((m.leads_perform es).trace_eq.symm.trans hfs.trace_eq)
  exact heq ▸ hp

namespace Vendor

open Firmware Pma

variable {es : List Event} {c : Call}

/-! ### Events that leave the controls alone -/

/-- The event writes neither of the registers that controls are in. -/
def SparesControls (e : Event) : Prop :=
  ∀ w ∈ e.csrWrite?, w.1 ≠ .mcacheCtl ∧ w.1 ≠ .mmiscCtl

theorem sparesControls_of_csrWrite?_eq_none {e : Event} (h : e.csrWrite? = none) :
    SparesControls e := by
  intro w hw
  rw [h] at hw
  cases hw

theorem sparesControls_csrWrite {csr : Csr} (hcache : csr ≠ .mcacheCtl) (hmisc : csr ≠ .mmiscCtl)
    (value : UInt64) : SparesControls (.csrWrite csr value) := by
  rintro w ⟨⟩
  exact ⟨hcache, hmisc⟩

/-- Such events leave the two registers as they were. -/
theorem get_replay_of_sparesControls {csr : Csr} (hcsr : csr = .mcacheCtl ∨ csr = .mmiscCtl)
    (hes : ∀ e ∈ es, SparesControls e) (bank : CsrFile) :
    (bank.replay es).get csr = bank.get csr := by
  refine CsrFile.get_replay_of_not_written (fun e he w hw ↦ ?_) bank
  obtain ⟨hcache, hmisc⟩ := hes e he w hw
  rcases hcsr with rfl | rfl
  · exact hcache
  · exact hmisc

/-! ### Commands that leave the controls alone -/

/-- Whether a command writes a register that controls are in. -/
def Command.steers : Command → Bool
  | writeCsr _ | switch _ => true
  | _ => false

/-- The registers of memory attribute entries are none of them. -/
theorem sparesControls_of_onEntries {e : Event} (h : OnEntries e) : SparesControls e := by
  rintro ⟨csr, value⟩ hw
  cases e with
  | csrWrite =>
    cases hw
    refine ⟨?_, ?_⟩
    · rintro rfl
      exact h
    · rintro rfl
      exact h
  | _ => cases hw

theorem Command.emits_run {command : Command} (h : command.steers = false) (t : Table)
    (args : Arguments) : Emits SparesControls (command.run t args) := by
  have hentries : ∀ {α : Type} {x : Firmware α}, Emits OnEntries x → Emits SparesControls x :=
    fun hx ↦ hx.mono fun _ ↦ sparesControls_of_onEntries
  cases command with
  | readCsr csr =>
    exact .bind (.csrRead fun _ ↦ sparesControls_of_csrWrite?_eq_none rfl) fun _ ↦ .pure _
  | writeCsr csr => cases h
  | switch control => cases h
  | flushDataCache =>
    exact .bind (.csrWrite (sparesControls_csrWrite (by simp) (by simp) _)) fun _ ↦ .pure _
  | assignEntry => exact .bind (hentries (t.emits_assign _ _ _ _)) fun _ ↦ .pure _
  | releaseEntry => exact .bind (hentries (t.emits_release _)) fun _ ↦ .pure _
  | probeEntries => exact .bind (hentries emits_programmable) fun _ ↦ .pure _

/-! ### Calls -/

/-- The command that a call names. -/
def Call.command? (c : Call) : Option Command :=
  if c.extension = extensionId then Command.ofId? c.function else none

/-- The function number of a call is a place among all commands. -/
theorem Call.command?_of_extension (h : c.extension = extensionId) :
    c.command? = Command.all[c.function.toNat]? :=
  if_pos h

theorem Call.command?_of_extension_ne (h : c.extension ≠ extensionId) : c.command? = none :=
  if_neg h

/-- A call that names a command is served by it. -/
theorem Call.serve_of_command? {command : Command} (h : c.command? = some command) (t : Table) :
    serve t c.extension c.function c.args = command.run t c.args := by
  obtain ⟨hext, hid⟩ := Option.ite_none_right_eq_some.1 h
  rw [hext, serve_of_ofId? hid]

/-- Answering a call does what its command does, besides a log record. -/
theorem Call.emits_answer_of {p : Event → Prop} {t : Table} (hlog : ∀ level text, p (.log level text))
    (h : ∀ command ∈ c.command?, Emits p (command.run t c.args)) : Emits p (c.answer t) := by
  have hserve : Emits p (serve t c.extension c.function c.args) := by
    cases hcommand : c.command? with
    | some command =>
      rw [serve_of_command? hcommand]
      exact h command hcommand
    | none =>
      by_cases hext : c.extension = extensionId
      · rw [command?, if_pos hext] at hcommand
        rw [serve, if_pos hext, Vendor.perform, hcommand]
        exact .bind (.log (hlog _ _)) fun _ ↦ .fail _
      · rw [serve, if_neg hext]
        exact .bind (.log (hlog _ _)) fun _ ↦ .fail _
  refine .bind (.attempt hserve) fun r ↦ ?_
  rcases r with cause | ⟨value, t'⟩
  · exact .pure _
  · exact .pure _

/-- A call that names no command, or one beside the controls, leaves them alone. -/
theorem Call.emits_answer (h : ∀ command ∈ c.command?, command.steers = false) (t : Table) :
    Emits SparesControls (c.answer t) :=
  emits_answer_of (fun _ _ ↦ sparesControls_of_csrWrite?_eq_none rfl) fun command hcommand ↦
    Command.emits_run (h command hcommand) t c.args

/-- How an answered call bears on the registers that controls are in, by its events. -/
inductive Steering (t : Table) (bank : CsrFile) (c : Call) : List Event → Reply → Table → Prop
  /-- A register is overwritten with the operand. -/
  | overwrite {csr : Csr} (h : c.command? = some (.writeCsr csr)) :
    Steering t bank c [.csrWrite csr c.args.first] ⟨0, 0⟩ t
  /-- A control is switched: on by any operand but zero, which switches it off. -/
  | switch {control : Control} (h : c.command? = some (.switch control)) (text : String) :
    Steering t bank c (control.events (c.args.first != 0) bank ++ [.log .debug text]) ⟨0, 0⟩ t
  /-- The two registers are left alone. -/
  | aside {es : List Event} {reply : Reply} {t' : Table}
    (h : ∀ command ∈ c.command?, command.steers = false) (hes : ∀ e ∈ es, SparesControls e) :
    Steering t bank c es reply t'

theorem Call.runs_answer_of_writeCsr {csr : Csr} (h : c.command? = some (.writeCsr csr))
    (t : Table) (bank : CsrFile) :
    Runs (c.answer t) bank [.csrWrite csr c.args.first] (.ok (⟨0, 0⟩, t)) := by
  refine runs_answer_of_ok ?_
  rw [serve_of_command? h]
  exact (runs_csrWrite _ _ _).bind (runs_pure _ _)

theorem Call.runs_answer_of_switch {control : Control} (h : c.command? = some (.switch control))
    (t : Table) (bank : CsrFile) :
    ∃ text, Runs (c.answer t) bank (control.events (c.args.first != 0) bank ++ [.log .debug text])
      (.ok (⟨0, 0⟩, t)) := by
  obtain ⟨text, hswitch⟩ := control.runs_switch (c.args.first != 0) bank
  refine ⟨text, runs_answer_of_ok ?_⟩
  rw [serve_of_command? h, ← List.append_nil (_ ++ _)]
  exact hswitch.bind (runs_pure _ _)

/-- **Every call is answered, and bears on the controls in one of three ways.** -/
theorem runs_answer_steering (t : Table) (bank : CsrFile) (c : Call) :
    ∃ es reply t', Runs (c.answer t) bank es (.ok (reply, t')) ∧
      Steering t bank c es reply t' := by
  by_cases h : ∀ command ∈ c.command?, command.steers = false
  · obtain ⟨es, reply, t', hrun, -, -⟩ := runs_answer t bank c
    exact ⟨es, reply, t', hrun, .aside h (hrun.forall_mem (Call.emits_answer h t))⟩
  · obtain ⟨command, hcommand⟩ := Classical.not_forall.1 h
    obtain ⟨hcommand, hsteers⟩ := Classical.not_imp.1 hcommand
    cases command with
    | writeCsr csr =>
      exact ⟨_, _, t, Call.runs_answer_of_writeCsr hcommand t bank, .overwrite hcommand⟩
    | switch control =>
      obtain ⟨text, hrun⟩ := Call.runs_answer_of_switch hcommand t bank
      exact ⟨_, _, t, hrun, .switch hcommand text⟩
    | _ => exact absurd rfl hsteers

end Vendor

end BringUp
