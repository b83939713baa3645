import BringUp.Proofs.Pma.Table

/-!
# Edits of an entry

Assigning an entry and releasing one come to the same: the entry is given a slot in the table, a
configuration byte and an address (`Edit`). Which of the two registers is written first matters
while the request runs, but not for what it leaves (`replay_assignEvents`, `replay_releaseEvents`).

An edit reads and writes a whole configuration register, which its entry shares with seven others.
Edits of different entries can be made in either order all the same (`Edit.bank_comm`,
`Edit.table_comm`), whatever the registers and the table hold.
-/

namespace BringUp

/-! ### Registers -/

/-- The last value written to a register counts. -/
theorem CsrFile.set_set (bank : CsrFile) (csr : Csr) (value value' : UInt64) :
    (bank.set csr value).set csr value' = bank.set csr value' := by
  funext c
  simp only [set]
  by_cases hc : c = csr
  · rw [if_pos hc, if_pos hc]
  · rw [if_neg hc, if_neg hc, if_neg hc]

/-- Different registers can be written in either order. -/
theorem CsrFile.set_comm (bank : CsrFile) {csr csr' : Csr} (h : csr ≠ csr')
    (value value' : UInt64) :
    (bank.set csr value).set csr' value' = (bank.set csr' value').set csr value := by
  funext c
  simp only [set]
  by_cases hc : c = csr
  · rw [if_pos hc, if_pos hc, if_neg fun hc' ↦ h (hc.symm.trans hc')]
  · rw [if_neg hc, if_neg hc]

namespace Pma

/-- Bytes at different places of a configuration word can be replaced in either order. -/
theorem replaceConfig_comm (word : UInt64) {entry entry' : UInt64}
    (h : entry.toNat % 8 ≠ entry'.toNat % 8) (config config' : UInt8) :
    replaceConfig (replaceConfig word entry config) entry' config' =
      replaceConfig (replaceConfig word entry' config') entry config := by
  refine UInt64.toBitVec_inj.1 (BitVec.eq_of_getLsbD_eq fun j hj ↦ ?_)
  simp only [getLsbD_replaceConfig _ _ _ hj]
  -- no bit is in both bytes
  by_cases hbyte : 8 * (entry.toNat % 8) ≤ j ∧ j < 8 * (entry.toNat % 8) + 8
  · rw [if_neg (by omega), if_pos hbyte, if_pos hbyte]
  · rw [if_neg hbyte, if_neg hbyte]

/-- The registers with the configuration byte of an entry replaced. -/
def withConfig (bank : CsrFile) (entry : UInt64) (config : UInt8) : CsrFile :=
  bank.set (Csr.pmaCfgOf entry) (replaceConfig (bank.get (Csr.pmaCfgOf entry)) entry config)

theorem withConfig_set (bank : CsrFile) (entry : UInt64) (config : UInt8) (n : UInt8)
    (address : UInt64) :
    withConfig (bank.set (.pmaAddr n) address) entry config =
      (withConfig bank entry config).set (.pmaAddr n) address := by
  have hne : Csr.pmaCfgOf entry ≠ .pmaAddr n := by simp [Csr.pmaCfgOf]
  rw [withConfig, withConfig, CsrFile.get_set_of_ne hne, bank.set_comm hne]

section Entries

variable {entry entry' : UInt64} (h : entry.toNat < entries) (h' : entry'.toNat < entries)
  (hne : entry.toNat ≠ entry'.toNat)
include h h' hne

theorem withConfig_comm (bank : CsrFile) (config config' : UInt8) :
    withConfig (withConfig bank entry config) entry' config' =
      withConfig (withConfig bank entry' config') entry config := by
  have hlt : entry.toNat < 16 := h
  have hlt' : entry'.toNat < 16 := h'
  by_cases hcsr : Csr.pmaCfgOf entry = Csr.pmaCfgOf entry'
  · -- in one register the entries have different bytes
    have hgroup := hcsr
    rw [Csr.pmaCfgOf_eq h, Csr.pmaCfgOf_eq h'] at hgroup
    have hnumber := congrArg UInt8.toNat (Csr.pmaCfg.inj hgroup)
    simp only [UInt8.toNat_ofNat'] at hnumber
    have hplace : entry.toNat % 8 ≠ entry'.toNat % 8 := by omega
    simp only [withConfig, hcsr, CsrFile.get_set_self, CsrFile.set_set]
    rw [replaceConfig_comm _ hplace]
  · rw [withConfig, withConfig, withConfig, withConfig, CsrFile.get_set_of_ne (Ne.symm hcsr),
      CsrFile.get_set_of_ne hcsr, bank.set_comm hcsr]

theorem pmaAddr_ne : Csr.pmaAddr entry.toUInt8 ≠ .pmaAddr entry'.toUInt8 := by
  have hlt : entry.toNat < 16 := h
  have hlt' : entry'.toNat < 16 := h'
  intro heq
  have hnumber := congrArg UInt8.toNat (Csr.pmaAddr.inj heq)
  simp only [UInt64.toNat_toUInt8] at hnumber
  omega

end Entries

/-! ### Edits -/

/-- What a request makes of an entry. -/
structure Edit where
  /-- The entry. -/
  entry : Fin entries
  /-- What its slot holds. -/
  slot : Option Region
  /-- Its configuration byte. -/
  config : UInt8
  /-- Its address. -/
  address : UInt64

namespace Edit

/-- An entry is given a region. -/
def assign (entry : Fin entries) (r : Region) : Edit :=
  ⟨entry, some r, regionConfig, r.address⟩

/-- An entry is given up. -/
def release (entry : Fin entries) : Edit :=
  ⟨entry, none, 0, 0⟩

/-- The table after the edit. -/
def table (x : Edit) (t : Table) : Table :=
  ⟨t.slots.set x.entry x.slot⟩

/-- The registers after the edit. -/
def bank (x : Edit) (bank : CsrFile) : CsrFile :=
  (withConfig bank x.entry.val.toUInt64 x.config).set
    (.pmaAddr x.entry.val.toUInt64.toUInt8) x.address

/-! #### Requests as edits -/

theorem replay_assignEvents (bank : CsrFile) (entry : Fin entries) (r : Region) :
    bank.replay (Table.assignEvents bank r entry.val.toUInt64) = (assign entry r).bank bank := by
  have hcfg : Csr.pmaCfgOf entry.val.toUInt64 ≠ .pmaAddr entry.val.toUInt64.toUInt8 := by
    simp [Csr.pmaCfgOf]
  exact bank.set_comm hcfg.symm _ _

theorem replay_releaseEvents (bank : CsrFile) (entry : Fin entries) :
    bank.replay (Table.releaseEvents bank entry.val.toUInt64) = (release entry).bank bank := rfl

/-! #### What an edit leaves alone -/

variable (x y : Edit)

theorem programmable_bank (bank : CsrFile) :
    (x.bank bank).programmable = bank.programmable := by
  have hcfg : Csr.mmscCfg ≠ Csr.pmaCfgOf x.entry.val.toUInt64 := by simp [Csr.pmaCfgOf]
  have haddr : Csr.mmscCfg ≠ .pmaAddr x.entry.val.toUInt64.toUInt8 := by simp
  rw [CsrFile.programmable, Edit.bank, CsrFile.get_set_of_ne haddr, withConfig,
    CsrFile.get_set_of_ne hcfg, CsrFile.programmable]

theorem get_slots_table (t : Table) (e : Fin entries) :
    (x.table t).slots.get e = if e = x.entry then x.slot else t.slots.get e := by
  rw [table, t.get_slots_set]
  simp only [Fin.ext_iff]

theorem get?_table_of_ne (t : Table) {entry : UInt64} (h : entry.toNat ≠ x.entry.val) :
    (x.table t).get? entry = t.get? entry := by
  rw [Table.get?, Table.get?, table, Vector.getElem?_set_ne _ (Ne.symm h)]

/-- An edit matters to an owner only if the entry held a region of that owner, or gets one. -/
theorem entryOf?_table (t : Table) {va : UInt64}
    (hold : ∀ r, t.slots.get x.entry = some r → r.va ≠ va)
    (hnew : ∀ r, x.slot = some r → r.va ≠ va) : (x.table t).entryOf? va = t.entryOf? va := by
  -- the same entries hold a region of the owner before and after
  have howned (i : Fin entries) : (∃ r, (x.table t).slots.get i = some r ∧ r.va = va) ↔
      ∃ r, t.slots.get i = some r ∧ r.va = va := by
    rw [x.get_slots_table]
    by_cases hi : i = x.entry
    · subst hi
      rw [if_pos rfl]
      exact iff_of_false (fun ⟨r, hr, hva⟩ ↦ hnew r hr hva) fun ⟨r, hr, hva⟩ ↦ hold r hr hva
    · rw [if_neg hi]
  refine Option.ext fun i ↦ ?_
  rw [Table.entryOf?_eq_some_iff, Table.entryOf?_eq_some_iff, howned]
  refine and_congr_right fun _ ↦ forall₂_congr fun j _ ↦ ?_
  have := not_congr (howned j)
  simpa only [not_exists, not_and] using this

/-! #### Two edits -/

variable {x y}

/-- Edits of different entries make the same table in either order. -/
theorem table_comm (h : x.entry ≠ y.entry) (t : Table) :
    y.table (x.table t) = x.table (y.table t) :=
  congrArg Table.mk (Vector.set_comm _ _ (Fin.val_ne_of_ne h))

/-- **Edits of different entries make the same registers in either order.** -/
theorem bank_comm (h : x.entry ≠ y.entry) (bank : CsrFile) :
    y.bank (x.bank bank) = x.bank (y.bank bank) := by
  have hx := Table.toNat_toUInt64_val x.entry
  have hy := Table.toNat_toUInt64_val y.entry
  have hxlt : x.entry.val.toUInt64.toNat < entries := hx.symm ▸ x.entry.isLt
  have hylt : y.entry.val.toUInt64.toNat < entries := hy.symm ▸ y.entry.isLt
  have hne : x.entry.val.toUInt64.toNat ≠ y.entry.val.toUInt64.toNat := by
    rw [hx, hy]
    exact Fin.val_ne_of_ne h
  simp only [Edit.bank, withConfig_set]
  rw [withConfig_comm hxlt hylt hne, CsrFile.set_comm _ (pmaAddr_ne hxlt hylt hne)]

end Edit

end Pma

end BringUp
