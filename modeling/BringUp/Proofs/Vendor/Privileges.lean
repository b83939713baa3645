import BringUp.Proofs.Vendor.Steering

/-!
# Registers that vendor calls write

Supervisor software reaches the machine's registers through vendor calls, with operands of its
choice. `Permitted` lists what may come of it: the two registers of controls take any word, the
cache command takes one, and the registers of memory attribute entries are written only on a core
that has programmable attributes. The registers that describe the core are not written.

Every command keeps to the list for a core with programmable attributes (`Call.emits_permitted`). On
any other core the capability is tested before an entry is assigned, but not before one is released.
What keeps a release from writing there is the table, which has no entry to release
(`runs_answer_of_idle`).
-/

namespace BringUp

open Firmware Pma

/-- What may be written to the registers. `attributes` tells whether that includes those of memory
attribute entries. -/
def Permitted (attributes : Bool) : Event → Prop
  | .csrWrite .mcacheCtl _ | .csrWrite .mmiscCtl _ => True
  | .csrWrite .mcctlCommand value => value = 6
  | .csrWrite (.pmaCfg n) _ => attributes = true ∧ (n = 0 ∨ n = 2)
  | .csrWrite (.pmaAddr n) _ => attributes = true ∧ n ≤ 15
  | .csrWrite .misa _ | .csrWrite .micmCfg _ | .csrWrite .mdcmCfg _ | .csrWrite .mmscCfg _ => False
  | _ => True

variable {attributes : Bool} {e : Event} {es : List Event} {bank : CsrFile}

theorem permitted_of_csrWrite?_eq_none (h : e.csrWrite? = none) : Permitted attributes e := by
  cases e with
  | csrWrite => cases h
  | _ => trivial

theorem permitted_of_onEntries (h : OnEntries e) : Permitted true e := by
  cases e with
  | csrWrite csr =>
    cases csr with
    | pmaCfg n => exact ⟨rfl, h⟩
    | pmaAddr n => exact ⟨rfl, h⟩
    | _ => exact h.elim
  | _ => trivial

/-- Without the registers of entries, what is permitted does not depend on the core. -/
theorem Permitted.of_spares (h : Permitted true e) (hspares : Spares e) (attributes : Bool) :
    Permitted attributes e := by
  cases e with
  | csrWrite csr value =>
    have hcsr : reservedCsr csr = false := hspares (csr, value) rfl
    cases csr with
    | pmaCfg n => cases hcsr
    | pmaAddr n => cases hcsr
    | _ => exact h
  | _ => trivial

/-- The registers that describe the core keep their values. -/
theorem get_replay_of_permitted {csr : Csr} (hcsr : csr ∈ [.misa, .micmCfg, .mdcmCfg, .mmscCfg])
    (hes : ∀ e ∈ es, Permitted attributes e) (bank : CsrFile) :
    (bank.replay es).get csr = bank.get csr := by
  refine CsrFile.get_replay_of_not_written (fun e he w hw ↦ ?_) bank
  have hperm := hes e he
  rintro rfl
  cases e with
  | csrWrite written value =>
    cases hw
    simp only [List.mem_cons, List.not_mem_nil, or_false] at hcsr
    rcases hcsr with rfl | rfl | rfl | rfl <;> exact hperm
  | _ => cases hw

/-- So whether memory attributes are programmable does not change. -/
theorem programmable_replay_of_permitted (hes : ∀ e ∈ es, Permitted attributes e)
    (bank : CsrFile) : (bank.replay es).programmable = bank.programmable := by
  rw [CsrFile.programmable, get_replay_of_permitted (by simp) hes, CsrFile.programmable]

namespace Vendor

/-! ### Commands -/

theorem Control.permitted_events (control : Control) (on : Bool) (bank : CsrFile) :
    ∀ e ∈ control.events on bank, Permitted attributes e := by
  have haftermath : ∀ e ∈ control.aftermath on, Permitted attributes e := by
    intro e he
    unfold aftermath at he
    split at he
    · rw [List.mem_singleton.1 he]
      trivial
    · rw [List.mem_singleton.1 he]
      exact rfl
    · cases he
  have hwrite : ∀ value, Permitted attributes (.csrWrite control.register value) := by
    cases control <;> exact fun _ ↦ trivial
  exact List.forall_mem_cons.2 ⟨trivial, List.forall_mem_cons.2 ⟨hwrite _, haftermath⟩⟩

/-- A command that overwrites a register overwrites one that controls are in. -/
theorem Command.permitted_csrWrite {csr : Csr} (h : writeCsr csr ∈ all) (value : UInt64) :
    Permitted attributes (.csrWrite csr value) := by
  simp only [all, List.mem_cons, reduceCtorEq, writeCsr.injEq, List.not_mem_nil, or_false,
    false_or] at h
  rcases h with rfl | rfl
  · trivial
  · trivial

/-- **Commands write what is permitted**, whatever their operands. -/
theorem Command.emits_permitted {command : Command} (h : command ∈ all) (t : Table)
    (args : Arguments) : Emits (Permitted true) (command.run t args) := by
  have hentries : ∀ {α : Type} {x : Firmware α}, Emits OnEntries x → Emits (Permitted true) x :=
    fun hx ↦ hx.mono fun _ ↦ permitted_of_onEntries
  cases command with
  | readCsr csr => exact .bind (.csrRead fun _ ↦ trivial) fun _ ↦ .pure _
  | writeCsr csr => exact .bind (.csrWrite (permitted_csrWrite h _)) fun _ ↦ .pure _
  | switch control =>
    refine .bind (emits_of_runs fun bank ↦ ?_) fun _ ↦ .pure _
    obtain ⟨text, hrun⟩ := control.runs_switch (args.first != 0) bank
    exact ⟨_, _, hrun, List.forall_mem_append.2
      ⟨control.permitted_events _ bank, List.forall_mem_singleton.2 trivial⟩⟩
  | flushDataCache => exact .bind (.csrWrite rfl) fun _ ↦ .pure _
  | assignEntry => exact .bind (hentries (t.emits_assign _ _ _ _)) fun _ ↦ .pure _
  | releaseEntry => exact .bind (hentries (t.emits_release _)) fun _ ↦ .pure _
  | probeEntries => exact .bind (hentries emits_programmable) fun _ ↦ .pure _

/-! ### Calls -/

variable {c : Call} {t : Table}

theorem Call.emits_permitted (t : Table) (c : Call) : Emits (Permitted true) (c.answer t) := by
  refine Call.emits_answer_of (fun _ _ ↦ trivial) fun command hcommand ↦ ?_
  obtain ⟨-, hid⟩ := Option.ite_none_right_eq_some.1 hcommand
  exact Command.emits_permitted (Command.mem_all_of_ofId? hid) t c.args

/-- **On a core without programmable attributes, calls leave a table that holds no region alone**,
and the registers of entries too. -/
theorem runs_answer_of_idle (hprog : bank.programmable = false)
    (hidle : ∀ i, t.slots.get i = none) (c : Call) :
    ∃ es reply, Runs (c.answer t) bank es (.ok (reply, t)) ∧ ∀ e ∈ es, Spares e := by
  have hinert : ∀ e, Call.Inert e → Spares e := fun e he ↦
    spares_of_csrWrite?_eq_none he.csrWrite?_eq_none
  by_cases hu : c.Unsupported bank
  · obtain ⟨e, id, hserve, he⟩ := runs_serve_of_unsupported hu t
    exact ⟨_, _, runs_answer_of_failure hserve, List.forall_mem_singleton.2 (hinert e he)⟩
  · by_cases hm : c.Malformed t bank
    · obtain ⟨es, what, hserve, hes⟩ := runs_serve_of_malformed hm
      exact ⟨_, _, runs_answer_of_failure hserve, fun e he ↦ hinert e (hes e he)⟩
    · -- what is left is served, and is no command on the table
      obtain ⟨hext, command, hcommand⟩ := command_of_not_unsupported hu
      have hchange : command.changesTable = false := by
        refine Bool.eq_false_iff.2 fun hchange ↦ ?_
        rcases Command.eq_of_changesTable hchange with rfl | rfl
        · have hfun := Command.ofId?_eq_some_assignEntry_iff.1 hcommand
          exact hu (.inr (.inr ⟨hfun, hprog⟩))
        · have hfun := Command.ofId?_eq_some_releaseEntry_iff.1 hcommand
          exact hm ⟨hext, .inr ⟨hfun, fun i r hr ↦ nomatch (hidle i).symm.trans hr⟩⟩
      obtain ⟨value, es, hrun, hes⟩ := Command.runs_of_not_changesTable
        (Command.mem_all_of_ofId? hcommand) hchange t c.args bank
      have hserve : Runs (serve t c.extension c.function c.args) bank es (.ok (value, t)) := by
        rw [hext, serve_of_ofId? hcommand]
        exact hrun
      exact ⟨_, _, runs_answer_of_ok hserve, fun e he ↦ (hes e he).spares⟩

/-- Asked whether memory attributes are programmable, a call tells what the registers tell. -/
theorem runs_answer_probe (t : Table) (bank : CsrFile) (args : Arguments) :
    Runs (Call.answer t ⟨extensionId, 12, args⟩) bank [.csrRead .mmscCfg (bank.get .mmscCfg)]
      (.ok (⟨0, bank.programmable.toUInt64⟩, t)) := by
  have hprobe : Command.ofId? 12 = some .probeEntries := rfl
  refine runs_answer_of_ok ?_
  rw [serve_of_ofId? hprobe]
  exact (runs_programmable bank).bind (runs_pure _ _)

end Vendor

end BringUp
