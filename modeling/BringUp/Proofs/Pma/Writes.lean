import BringUp.Proofs.Pma.Agreement

/-!
# Registers that the table writes

Of the control and status registers, operations on the table write the configuration and address
registers of the sixteen entries, and no others (`OnEntries`). That holds whatever the table holds
and whatever is asked of it: an entry number is checked before it becomes part of a register's name,
and one that the table finds is in range by its type.
-/

namespace BringUp.Pma

open Firmware

/-- Of the registers the event writes those of the sixteen entries at most. -/
def OnEntries : Event → Prop
  | .csrWrite (.pmaCfg n) _ => n = 0 ∨ n = 2
  | .csrWrite (.pmaAddr n) _ => n ≤ 15
  | .csrWrite _ _ => False
  | _ => True

theorem onEntries_csrRead (csr : Csr) (value : UInt64) : OnEntries (.csrRead csr value) :=
  trivial

theorem onEntries_log (level : Level) (text : String) : OnEntries (.log level text) :=
  trivial

section Entries

variable {entry : UInt64} (h : entry.toNat < entries)
include h

/-- Entries have one of two configuration registers. -/
theorem onEntries_pmaCfgOf (value : UInt64) : OnEntries (.csrWrite (Csr.pmaCfgOf entry) value) := by
  rw [Csr.pmaCfgOf_eq h]
  have hlt : entry.toNat < 16 := h
  have hgroup : entry.toNat / 8 = 0 ∨ entry.toNat / 8 = 1 := by omega
  rcases hgroup with h₀ | h₁
  · rw [h₀]
    exact .inl rfl
  · rw [h₁]
    exact .inr rfl

theorem onEntries_pmaAddr (value : UInt64) :
    OnEntries (.csrWrite (.pmaAddr entry.toUInt8) value) := by
  have hlt : entry.toNat < 16 := h
  show entry.toUInt8 ≤ 15
  rw [UInt8.le_iff_toNat_le, UInt64.toNat_toUInt8]
  show entry.toNat % 256 ≤ 15
  omega

theorem emits_writeConfig (config : UInt8) : Emits OnEntries (writeConfig entry config) :=
  .bind (.csrRead (onEntries_csrRead _)) fun _ ↦ .csrWrite (onEntries_pmaCfgOf h _)

end Entries

theorem emits_programmable : Emits OnEntries programmable :=
  .bind (.csrRead (onEntries_csrRead _)) fun _ ↦ .pure _

namespace Table

variable (t : Table)

theorem emits_assign (pa va size entry : UInt64) :
    Emits OnEntries (t.assign pa va size entry) := by
  refine .bind emits_programmable fun b ↦ .ite (.fail _) ?_
  split
  · next hentry =>
    refine .ite (.fail _) (.ite (.fail _) (.ite (.fail _) (.bind (.liftExcept _) fun _ ↦ ?_)))
    refine .bind (.csrWrite (onEntries_pmaAddr hentry _)) fun _ ↦ ?_
    exact .bind (emits_writeConfig hentry _) fun _ ↦ .bind (.log (onEntries_log _ _)) fun _ ↦ .pure _
  · exact .fail _

theorem emits_release (va : UInt64) : Emits OnEntries (t.release va) := by
  rw [release]
  split
  · exact .fail _
  · next i _ =>
    have hentry : i.val.toUInt64.toNat < entries := (toNat_toUInt64_val i).symm ▸ i.isLt
    refine .bind (emits_writeConfig hentry _) fun _ ↦ ?_
    refine .bind (.csrWrite (onEntries_pmaAddr hentry _)) fun _ ↦ ?_
    exact .bind (.log (onEntries_log _ _)) fun _ ↦ .pure _

variable {bank : CsrFile} {e : Event}

/-- A core without programmable attributes has nothing to clear. -/
theorem spares_of_mem_clearEvents (h : bank.programmable = false) (he : e ∈ clearEvents bank) :
    Spares e := by
  rw [clearEvents, h, if_neg Bool.false_ne_true, List.mem_singleton] at he
  rw [he]
  exact spares_of_csrWrite?_eq_none rfl

end Table

end BringUp.Pma
