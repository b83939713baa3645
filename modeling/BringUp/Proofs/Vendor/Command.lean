import BringUp.Proofs.Pma.Agreement
import BringUp.Vendor.Call

/-!
# Commands beside the table

Which function numbers name which commands, and what the commands do that leave the table of regions
alone. Such a command always ends, hands the table back as it was, makes no bus access and writes no
register that the agreement of table and hardware depends on (`Command.runs_of_not_changesTable`).
The two commands that change the table are left to the statements about calls.
-/

namespace BringUp.Vendor

open Firmware Pma

/-! ### Function numbers -/

namespace Command

theorem ofId?_eq_none_iff {function : UInt64} :
    ofId? function = none ↔ 18 ≤ function.toNat := by
  rw [ofId?, List.getElem?_eq_none_iff]
  rfl

theorem mem_all_of_ofId? {function : UInt64} {command : Command}
    (h : ofId? function = some command) : command ∈ all :=
  List.mem_of_getElem? h

/-- A command listed once has one function number. -/
theorem ofId?_eq_some_iff_of_unique {command : Command} {n : Fin 18}
    (h : ∀ i : Fin 18, all[i.val]? = some command ↔ i = n) {function : UInt64} :
    ofId? function = some command ↔ function.toNat = n.val := by
  rw [ofId?]
  constructor
  · intro hf
    have hlt : function.toNat < 18 := (List.getElem?_eq_some_iff.1 hf).1
    exact congrArg Fin.val ((h ⟨function.toNat, hlt⟩).1 hf)
  · intro hf
    rw [hf]
    exact (h n).2 rfl

theorem ofId?_eq_some_assignEntry_iff {function : UInt64} :
    ofId? function = some assignEntry ↔ function = 10 := by
  rw [ofId?_eq_some_iff_of_unique (n := 10) (by decide), ← UInt64.toNat_inj]
  rfl

theorem ofId?_eq_some_releaseEntry_iff {function : UInt64} :
    ofId? function = some releaseEntry ↔ function = 11 := by
  rw [ofId?_eq_some_iff_of_unique (n := 11) (by decide), ← UInt64.toNat_inj]
  rfl

/-- No command overwrites a register that the agreement of table and hardware depends on. -/
theorem reservedCsr_of_mem {csr : Csr} (h : writeCsr csr ∈ all) : reservedCsr csr = false := by
  simp only [all, List.mem_cons, reduceCtorEq, writeCsr.injEq, List.not_mem_nil, or_false,
    false_or] at h
  rcases h with rfl | rfl <;> rfl

end Command

/-! ### Events beside the table -/

/-- The event is no bus access, and writes no register that the agreement of table and hardware
depends on. -/
structure Aside (e : Event) : Prop where
  /-- The table is spared. -/
  spares : Spares e
  /-- The bus is left alone. -/
  isBus_eq : e.isBus = false

theorem aside_csrRead (csr : Csr) (value : UInt64) : Aside (.csrRead csr value) :=
  ⟨spares_of_csrWrite?_eq_none rfl, rfl⟩

theorem aside_csrWrite {csr : Csr} (h : reservedCsr csr = false) (value : UInt64) :
    Aside (.csrWrite csr value) :=
  ⟨spares_csrWrite h value, rfl⟩

theorem aside_fence : Aside .fence :=
  ⟨spares_of_csrWrite?_eq_none rfl, rfl⟩

theorem aside_log (level : Level) (text : String) : Aside (.log level text) :=
  ⟨spares_of_csrWrite?_eq_none rfl, rfl⟩

/-! ### Controls -/

theorem completes_switchBits {csr : Csr} (h : reservedCsr csr = false) (bits : UInt64) (on : Bool) :
    Completes Aside (switchBits csr bits on) :=
  .ite (.csrSet (aside_csrRead csr) (aside_csrWrite h))
    (.csrClear (aside_csrRead csr) (aside_csrWrite h))

theorem completes_flushDataCache : Completes Aside flushDataCache :=
  .csrWrite (aside_csrWrite rfl _)

theorem Control.completes_drive (control : Control) (on : Bool) :
    Completes Aside (control.drive on) := by
  have hfence : Completes Aside fence := .fence aside_fence
  cases control with
  | icache => exact .bind (completes_switchBits rfl _ on) fun _ ↦ .ite hfence (.pure _)
  | dcache =>
    exact .bind (completes_switchBits rfl _ on) fun _ ↦ .ite completes_flushDataCache (.pure _)
  | iprefetch => exact completes_switchBits rfl _ on
  | dprefetch => exact completes_switchBits rfl _ on
  | nonBlocking => exact completes_switchBits rfl _ on
  | writeAround =>
    exact .bind (.csrRead (aside_csrRead _)) fun word ↦ .csrWrite (aside_csrWrite rfl _)

theorem Control.completes_switch (control : Control) (on : Bool) :
    Completes Aside (control.switch on) :=
  .bind (control.completes_drive on) fun _ ↦ .log (aside_log _ _)

theorem completes_enableCaches : Completes Aside enableCaches := by
  refine .bind (.csrRead (aside_csrRead _)) fun word ↦ ?_
  refine .bind (.csrWrite (aside_csrWrite rfl _)) fun _ ↦ .bind ?_ fun _ ↦ .log (aside_log _ _)
  exact .csrSet (aside_csrRead _) (aside_csrWrite rfl)

/-! ### Commands -/

/-- Whether a command can change the table of regions. -/
def Command.changesTable : Command → Bool
  | assignEntry | releaseEntry => true
  | _ => false

theorem Command.eq_of_changesTable {command : Command} (h : command.changesTable = true) :
    command = assignEntry ∨ command = releaseEntry := by
  cases command with
  | assignEntry => exact .inl rfl
  | releaseEntry => exact .inr rfl
  | _ => cases h

/-- **A command beside the table always ends, and leaves table and entries alone.** -/
theorem Command.runs_of_not_changesTable {command : Command} (hmem : command ∈ all)
    (h : command.changesTable = false) (t : Table) (args : Arguments) (bank : CsrFile) :
    ∃ value es, Runs (command.run t args) bank es (.ok (value, t)) ∧ ∀ e ∈ es, Aside e := by
  -- an action that completes, followed by a value and the table as it was
  have hthen : ∀ {α : Type} {x : Firmware α} (f : α → UInt64), Completes Aside x →
      ∃ value es, Runs (x >>= fun a ↦ pure (f a, t)) bank es (.ok (value, t)) ∧
        ∀ e ∈ es, Aside e := by
    intro α x f hx
    obtain ⟨a, es, hes, hp⟩ := hx bank
    refine ⟨f a, es, ?_, hp⟩
    rw [← es.append_nil]
    exact hes.bind (runs_pure _ _)
  cases command with
  | readCsr csr => exact hthen id (.csrRead (aside_csrRead csr))
  | writeCsr csr =>
    exact hthen (fun _ ↦ 0) (.csrWrite (aside_csrWrite (reservedCsr_of_mem hmem) _))
  | switch control => exact hthen (fun _ ↦ 0) (control.completes_switch _)
  | flushDataCache => exact hthen (fun _ ↦ 0) completes_flushDataCache
  | assignEntry => cases h
  | releaseEntry => cases h
  | probeEntries =>
    exact hthen Bool.toUInt64 (.bind (.csrRead (aside_csrRead _)) fun _ ↦ .pure _)

end BringUp.Vendor
