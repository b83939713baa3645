import BringUp.Proofs.Machine.Monitor
import BringUp.Proofs.Pma.Agreement

/-!
# Coverage in the middle of an operation

Agreement of table and hardware holds between operations, not inside of one. What holds inside is
weaker: an entry that is enabled has the configuration byte of a region and the address of one that
was granted to it (`Covered`). It survives every single register write because an entry is assigned
with its address first and released with its configuration byte first, so that the address of an
entry changes only while the entry is off.

A monitor over the registers says this of each event (`coverage`), and of each write also that it
reaches the configuration byte of one entry at most, but for the writes that clear the table.
-/

namespace BringUp.Pma

variable {granted : Fin entries → Region → Prop} {wide : List Event} {t : Table}
  {bank bank' : CsrFile} {e : Event} {es : List Event}

/-! ### Entries that are covered -/

/-- Every entry that is enabled has the configuration byte of a region and the address of one that
was granted to it. -/
def Covered (granted : Fin entries → Region → Prop) (bank : CsrFile) : Prop :=
  ∀ i, bank.configByte i ≠ 0 →
    bank.configByte i = regionConfig ∧ ∃ r, granted i r ∧ bank.pmaAddress i = r.address

/-- Entries that are switched off or left alone do not matter. -/
theorem Covered.congr (h : Covered granted bank)
    (heq : ∀ i, bank'.configByte i = 0 ∨
      bank'.configByte i = bank.configByte i ∧ bank'.pmaAddress i = bank.pmaAddress i) :
    Covered granted bank' := by
  intro i hon
  obtain ⟨hconfig, haddress⟩ := (heq i).resolve_left hon
  rw [hconfig, haddress]
  exact h i (hconfig ▸ hon)

/-- All regions in the table were granted. -/
def Table.Explained (t : Table) (granted : Fin entries → Region → Prop) : Prop :=
  ∀ i r, t.slots.get i = some r → granted i r

/-- Table and hardware in agreement cover the entries. -/
theorem covered_of_agrees (h : t.Agrees bank) (hgranted : t.Explained granted) :
    Covered granted bank := by
  intro i hon
  have hreflects := h.reflects i
  cases hslot : t.slots.get i with
  | none =>
    rw [hslot] at hreflects
    exact absurd hreflects hon
  | some r =>
    rw [hslot] at hreflects
    obtain ⟨hconfig, haddress, -⟩ := hreflects
    exact ⟨hconfig, r, hgranted i r hslot, haddress⟩

/-! ### The monitor -/

/-- The event changes the configuration byte of one entry at most. -/
def ReachesOne (bank : CsrFile) (e : Event) : Prop :=
  ∃ i : Fin entries, ∀ j ≠ i, (bank.react e).configByte j = bank.configByte j

/-- Follows the registers. Allows what leaves the entries covered and reaches one entry at most; of
the events in `wide`, only the former is asked. -/
def coverage (granted : Fin entries → Region → Prop) (wide : List Event) : Monitor CsrFile where
  next := CsrFile.react
  allows bank e := Covered granted (bank.react e) ∧ (ReachesOne bank e ∨ e ∈ wide)

theorem coverage_after : (coverage granted wide).after bank es = bank.replay es := rfl

/-- In the middle of accepted events the entries are covered. -/
theorem covered_of_accepts {front back : List Event} (h : Covered granted bank)
    (haccepts : (coverage granted wide).Accepts bank (front ++ back)) :
    Covered granted (bank.replay front) := by
  rcases List.eq_nil_or_concat front with rfl | ⟨before, e, rfl⟩
  · exact h
  · rw [List.concat_eq_append, List.append_assoc] at haccepts
    have hallows := haccepts.allows
    rw [coverage_after] at hallows
    rw [List.concat_eq_append, CsrFile.replay_append]
    exact hallows.1

/-! ### Single events -/

theorem reachesOne_of_eq (h : ∀ i, (bank.react e).configByte i = bank.configByte i) :
    ReachesOne bank e :=
  ⟨⟨0, by decide⟩, fun j _ ↦ h j⟩

/-- What writes no register leaves the entries alone. -/
theorem ignores_of_csrWrite?_eq_none (h : Covered granted bank) (he : e.csrWrite? = none) :
    (coverage granted wide).Ignores bank e := by
  have hreact : bank.react e = bank := CsrFile.react_of_csrWrite?_eq_none he bank
  refine ⟨⟨?_, .inl (reachesOne_of_eq fun i ↦ ?_)⟩, hreact⟩
  · rw [hreact]
    exact h
  · rw [hreact]

theorem configByte_react_of_spares (h : Spares e) (bank : CsrFile) (i : Fin entries) :
    (bank.react e).configByte i = bank.configByte i := by
  cases e with
  | csrWrite csr value =>
    refine bank.configByte_set_of_ne ?_ value i
    rintro n rfl
    exact nomatch h (.pmaCfg n, value) rfl
  | _ => rfl

theorem pmaAddress_react_of_spares (h : Spares e) (bank : CsrFile) (i : Fin entries) :
    (bank.react e).pmaAddress i = bank.pmaAddress i := by
  cases e with
  | csrWrite csr value =>
    refine bank.pmaAddress_set_of_ne ?_ value i
    rintro n rfl
    exact nomatch h (.pmaAddr n, value) rfl
  | _ => rfl

theorem accepts_of_spares (h : Covered granted bank) (hes : ∀ e ∈ es, Spares e) :
    (coverage granted wide).Accepts bank es := by
  induction es generalizing bank with
  | nil => trivial
  | cons e es ih =>
    obtain ⟨he, hrest⟩ := List.forall_mem_cons.1 hes
    have hconfig := configByte_react_of_spares he bank
    have hcovered : Covered granted (bank.react e) :=
      h.congr fun i ↦ .inr ⟨hconfig i, pmaAddress_react_of_spares he bank i⟩
    exact ⟨⟨hcovered, .inl (reachesOne_of_eq hconfig)⟩, ih hcovered hrest⟩

/-- Events that spare the entries may follow others. -/
theorem accepts_append_spares {fs : List Event} (h : Covered granted bank)
    (hes : (coverage granted wide).Accepts bank es) (hfs : ∀ e ∈ fs, Spares e) :
    (coverage granted wide).Accepts bank (es ++ fs) := by
  have hafter : Covered granted (bank.replay es) :=
    covered_of_accepts h (show (coverage granted wide).Accepts bank (es ++ []) by
      rwa [List.append_nil])
  exact Monitor.accepts_append.2 ⟨hes, accepts_of_spares hafter hfs⟩

/-! ### Writes of one entry -/

/-- A configuration write reaches the entry that it is for. -/
theorem reachesOne_config {entry : UInt64} (hlt : entry.toNat < entries) (config : UInt8) :
    ReachesOne bank (.csrWrite (Csr.pmaCfgOf entry)
      (replaceConfig (bank.get (Csr.pmaCfgOf entry)) entry config)) := by
  refine ⟨⟨entry.toNat, hlt⟩, fun j hj ↦ ?_⟩
  rw [CsrFile.react, bank.configByte_set_replaceConfig hlt, if_neg fun heq ↦ hj (Fin.ext heq)]

/-- The address of an entry may be written while the entry is off. -/
theorem allows_address (h : Covered granted bank) {entry : UInt64} (hlt : entry.toNat < entries)
    (hoff : bank.configByte ⟨entry.toNat, hlt⟩ = 0) (value : UInt64) :
    (coverage granted wide).allows bank (.csrWrite (.pmaAddr entry.toUInt8) value) := by
  have hconfig : ∀ i, (bank.set (.pmaAddr entry.toUInt8) value).configByte i = bank.configByte i :=
    bank.configByte_set_of_ne (by simp) value
  refine ⟨h.congr fun i ↦ ?_, .inl (reachesOne_of_eq hconfig)⟩
  rw [CsrFile.react, hconfig, bank.pmaAddress_set hlt]
  by_cases hi : i.val = entry.toNat
  · obtain rfl : i = ⟨entry.toNat, hlt⟩ := Fin.ext hi
    exact .inl hoff
  · rw [if_neg hi]
    exact .inr ⟨rfl, rfl⟩

/-- The configuration byte of an entry may be written if that leaves the entries covered. -/
theorem accepts_configEvents (h : Covered granted bank) {entry : UInt64}
    (hlt : entry.toNat < entries) {config : UInt8}
    (hafter : Covered granted (bank.replay (configEvents bank entry config))) :
    (coverage granted wide).Accepts bank (configEvents bank entry config) :=
  ⟨(ignores_of_csrWrite?_eq_none h rfl).1, ⟨hafter, .inl (reachesOne_config hlt config)⟩, trivial⟩

/-! ### Operations on the table -/

/-- An entry that is free is off. -/
theorem configByte_of_free (h : t.Agrees bank) {i : Fin entries} (hfree : t.slots.get i = none) :
    bank.configByte i = 0 := by
  have hreflects := h.reflects i
  rw [hfree] at hreflects
  exact hreflects

theorem Table.explained_empty : Table.empty.Explained granted :=
  fun i _ hr ↦ nomatch (Vector.getElem_replicate i.isLt).symm.trans hr

theorem Table.Explained.set (h : t.Explained granted) {i : Nat} (hi : i < entries)
    {slot : Option Region} (hslot : ∀ r ∈ slot, granted ⟨i, hi⟩ r) :
    Table.Explained ⟨t.slots.set i slot hi⟩ granted := by
  intro j r hr
  rw [t.get_slots_set hi] at hr
  split at hr
  · next heq =>
    obtain rfl : j = ⟨i, hi⟩ := Fin.ext heq
    exact hslot r hr
  · exact h j r hr

/-- **Assigning an entry is covered at every write.** The address comes first, while the entry is
off; the configuration byte then enables the region that was granted. -/
theorem accepts_assign (h : t.Agrees bank) (hexplained : t.Explained granted)
    (hp : bank.programmable = true) {pa va size entry : UInt64} (ha : t.Accepts pa size entry)
    (hgranted : granted ⟨entry.toNat, ha.entry_lt⟩ ⟨pa, va, size⟩) :
    (coverage granted wide).Accepts bank (Table.assignEvents bank ⟨pa, va, size⟩ entry) := by
  have hcovered : Covered granted bank := covered_of_agrees h hexplained
  have hoff : bank.configByte ⟨entry.toNat, ha.entry_lt⟩ = 0 := by
    refine configByte_of_free h ?_
    have hfree := ha.free
    rwa [t.get?_eq_getElem ha.entry_lt] at hfree
  have haddress : (coverage granted wide).allows bank
      (.csrWrite (.pmaAddr entry.toUInt8) (Region.mk pa va size).address) :=
    allows_address hcovered ha.entry_lt hoff _
  have hafter : Covered granted (bank.replay (Table.assignEvents bank ⟨pa, va, size⟩ entry)) := by
    refine covered_of_agrees (h.assign hp ha) (hexplained.set ha.entry_lt ?_)
    rintro r ⟨⟩
    exact hgranted
  -- the configuration register is not the address register just written
  have hconfig : configEvents bank entry regionConfig = configEvents
      (bank.set (.pmaAddr entry.toUInt8) (Region.mk pa va size).address) entry regionConfig := by
    rw [configEvents, configEvents, CsrFile.get_set_of_ne (by simp [Csr.pmaCfgOf])]
  rw [Table.assignEvents, hconfig] at hafter ⊢
  exact ⟨haddress, accepts_configEvents haddress.1 ha.entry_lt hafter⟩

/-- **Releasing an entry is covered at every write.** The configuration byte comes first, so the
entry is off when its address goes. -/
theorem accepts_release (h : Covered granted bank) (i : Fin entries) :
    (coverage granted wide).Accepts bank (Table.releaseEvents bank i.val.toUInt64) := by
  have hlt : i.val.toUInt64.toNat < entries := (Table.toNat_toUInt64_val i).symm ▸ i.isLt
  have hconfig := bank.configByte_set_replaceConfig hlt 0
  have hoff : Covered granted (bank.replay (configEvents bank i.val.toUInt64 0)) := by
    refine h.congr fun j ↦ ?_
    rw [replay_configEvents, hconfig, bank.pmaAddress_set_of_ne (by simp [Csr.pmaCfgOf])]
    split
    · exact .inl rfl
    · exact .inr ⟨rfl, rfl⟩
  refine Monitor.accepts_append.2 ⟨accepts_configEvents h hlt hoff, ?_, trivial⟩
  exact allows_address hoff hlt ((hconfig _).trans (if_pos rfl)) 0

/-! ### Clearing the table -/

/-- Writing zero to a configuration register switches its entries off. -/
theorem Covered.set_zero (h : Covered granted bank) (n : UInt8) :
    Covered granted (bank.set (.pmaCfg n) 0) := by
  refine h.congr fun i ↦ ?_
  rw [bank.pmaAddress_set_of_ne (by simp), CsrFile.configByte, CsrFile.get_set]
  split
  · exact .inl (byteAt_zero (Nat.mod_lt _ (by decide)))
  · exact .inr ⟨rfl, rfl⟩

/-- The writes that clear the table. -/
def clearWrites : List Event :=
  [.csrWrite (.pmaCfg 0) 0, .csrWrite (.pmaCfg 2) 0]

/-- The event writes a configuration register. -/
def isConfigWrite : Event → Bool
  | .csrWrite (.pmaCfg _) _ => true
  | _ => false

theorem isConfigWrite_of_mem_clearWrites : ∀ e ∈ clearWrites, isConfigWrite e = true := by
  decide

theorem filter_isConfigWrite_of_spares (hes : ∀ e ∈ es, Spares e) :
    es.filter isConfigWrite = [] := by
  refine List.filter_eq_nil_iff.2 fun e he hconfig ↦ ?_
  unfold isConfigWrite at hconfig
  split at hconfig
  · next n value => exact nomatch hes _ he (.pmaCfg n, value) rfl
  · cases hconfig

theorem clearEvents_eq (bank : CsrFile) :
    Table.clearEvents bank = .csrRead .mmscCfg (bank.get .mmscCfg) ::
      if bank.programmable then clearWrites else [] := rfl

/-- Clearing writes both configuration registers, or neither. -/
theorem filter_isConfigWrite_clearEvents (bank : CsrFile) :
    (Table.clearEvents bank).filter isConfigWrite =
      if bank.programmable then clearWrites else [] := by
  rw [clearEvents_eq]
  split <;> rfl

/-- **Clearing the table is covered at every write.** -/
theorem accepts_clear (h : Covered granted bank) :
    (coverage granted clearWrites).Accepts bank (Table.clearEvents bank) := by
  rw [clearEvents_eq]
  refine ⟨(ignores_of_csrWrite?_eq_none h rfl).1, ?_⟩
  split
  · have hfirst : Covered granted (bank.set (.pmaCfg 0) 0) := h.set_zero 0
    exact ⟨⟨hfirst, .inr (by decide)⟩, ⟨hfirst.set_zero 2, .inr (by decide)⟩, trivial⟩
  · trivial

end BringUp.Pma
