import BringUp.Proofs.Pma.Table

/-!
# Agreement of table and hardware

The table of regions and the registers of the core are two records of the same thing. They agree if
every entry whose slot holds a region has the configuration byte of a region and the address that
encodes it, and every other entry has a zero configuration byte (`Table.Agrees`).

Agreement survives each operation on the table (`Agrees.assign`, `Agrees.release`, `Agrees.clear`)
and anything that writes none of the registers it is about (`Agrees.replay`). On a core without
programmable attributes clearing empties the table and writes nothing; that is harmless because such
a core never had an entry assigned, which is why the invariant says so (`Agrees.programmable`).
-/

namespace BringUp.Pma

/-- The registers hold for an entry what its slot says. -/
def Reflects (bank : CsrFile) (e : Fin entries) : Option Region → Prop
  | none => bank.configByte e = 0
  | some r => bank.configByte e = regionConfig ∧ bank.pmaAddress e = r.address ∧ r.WellFormed

/-- Only the two values that the hardware holds for the entry matter. -/
theorem Reflects.congr {bank bank' : CsrFile} {e : Fin entries} {slot : Option Region}
    (h : Reflects bank e slot) (hconfig : bank'.configByte e = bank.configByte e)
    (haddress : bank'.pmaAddress e = bank.pmaAddress e) : Reflects bank' e slot := by
  cases slot with
  | none => exact hconfig.trans h
  | some r => exact ⟨hconfig.trans h.1, haddress.trans h.2.1, h.2.2⟩

/-- Registers whose contents agreement depends on. -/
def reservedCsr : Csr → Bool
  | .pmaCfg _ | .pmaAddr _ | .mmscCfg => true
  | _ => false

/-- The event writes no register that agreement depends on. -/
def Spares (e : Event) : Prop :=
  ∀ w ∈ e.csrWrite?, reservedCsr w.1 = false

theorem spares_of_csrWrite?_eq_none {e : Event} (h : e.csrWrite? = none) : Spares e := by
  intro w hw
  rw [h] at hw
  cases hw

theorem spares_csrWrite {csr : Csr} (h : reservedCsr csr = false) (value : UInt64) :
    Spares (.csrWrite csr value) := by
  rintro w ⟨⟩
  exact h

/-- A log record is no register write. -/
theorem spares_of_mem_log {level : Level} {text : String} {e : Event}
    (he : e ∈ [.log level text]) : Spares e := by
  rw [List.mem_singleton.1 he]
  exact spares_of_csrWrite?_eq_none rfl

namespace Table

/-- Table and hardware record the same regions, and only a core with programmable attributes has
any. -/
structure Agrees (t : Table) (bank : CsrFile) : Prop where
  /-- Every entry is as its slot says. -/
  reflects : ∀ e : Fin entries, Reflects bank e (t.slots.get e)
  /-- An entry in use has programmable attributes. -/
  programmable : ∀ (e : Fin entries) (r : Region), t.slots.get e = some r → bank.programmable = true

/-- With no region anywhere it is enough that the two configuration registers are zero. -/
theorem agrees_empty {bank : CsrFile} (h₀ : bank.get (.pmaCfg 0) = 0)
    (h₂ : bank.get (.pmaCfg 2) = 0) : empty.Agrees bank where
  reflects e := by
    have hlt : e.val < 16 := e.isLt
    rw [get_slots_empty, Reflects, CsrFile.configByte]
    -- sixteen entries are two groups of eight
    have hgroup : e.val / 8 = 0 ∨ e.val / 8 = 1 := by omega
    rcases hgroup with h | h
    · rw [h, show UInt8.ofNat (2 * 0) = 0 from rfl, h₀, byteAt_zero (Nat.mod_lt _ (by decide))]
    · rw [h, show UInt8.ofNat (2 * 1) = 2 from rfl, h₂, byteAt_zero (Nat.mod_lt _ (by decide))]
  programmable e r h := by
    rw [get_slots_empty] at h
    cases h

/-- Conversely, with no region anywhere the two configuration registers are zero. -/
theorem pmaCfg_eq_zero_of_agrees_empty {bank : CsrFile} (h : empty.Agrees bank) :
    bank.get (.pmaCfg 0) = 0 ∧ bank.get (.pmaCfg 2) = 0 := by
  have hgroup (g : Nat) (hg : g < 2) : bank.get (.pmaCfg (UInt8.ofNat (2 * g))) = 0 := by
    refine eq_of_byteAt_eq fun i hi ↦ ?_
    have hlt : 8 * g + i < 16 := by omega
    have hentry := h.reflects ⟨8 * g + i, hlt⟩
    rw [get_slots_empty, Reflects, CsrFile.configByte] at hentry
    have hdiv : (8 * g + i) / 8 = g := by omega
    have hmod : (8 * g + i) % 8 = i := by omega
    rw [hdiv, hmod] at hentry
    rw [hentry, byteAt_zero hi]
  exact ⟨hgroup 0 (by decide), hgroup 1 (by decide)⟩

namespace Agrees

variable {t : Table} {bank : CsrFile}

theorem reflects_get? (h : t.Agrees bank) (e : Fin entries) :
    Reflects bank e (t.get? (UInt64.ofNat e)) := by
  have hlt : e.val < 16 := e.isLt
  have hval : (UInt64.ofNat e).toNat = e.val := by
    rw [UInt64.toNat_ofNat']
    omega
  rw [get?, hval, Vector.getElem?_eq_getElem e.isLt, Option.join_some]
  exact h.reflects e

/-! ### Register writes that spare the table -/

theorem set_of_not_reserved (h : t.Agrees bank) {csr : Csr} (hcsr : reservedCsr csr = false)
    (value : UInt64) : t.Agrees (bank.set csr value) := by
  have hcfg : ∀ n, csr ≠ .pmaCfg n := by rintro n rfl; cases hcsr
  have haddr : ∀ n, csr ≠ .pmaAddr n := by rintro n rfl; cases hcsr
  have hmmsc : Csr.mmscCfg ≠ csr := by rintro rfl; cases hcsr
  refine ⟨fun e ↦ ?_, fun e r hr ↦ ?_⟩
  · exact (h.reflects e).congr (bank.configByte_set_of_ne hcfg value e)
      (bank.pmaAddress_set_of_ne haddr value e)
  · rw [CsrFile.programmable, CsrFile.get_set_of_ne hmmsc]
    exact h.programmable e r hr

/-- Events that spare the table keep the agreement. -/
theorem replay (h : t.Agrees bank) {es : List Event} (hes : ∀ e ∈ es, Spares e) :
    t.Agrees (bank.replay es) := by
  induction es generalizing bank with
  | nil => exact h
  | cons e es ih =>
    refine ih ?_ fun e' he' ↦ hes e' (List.mem_cons_of_mem e he')
    cases e with
    | csrWrite csr value =>
      exact h.set_of_not_reserved (hes _ List.mem_cons_self (csr, value) rfl) value
    | _ => exact h

/-- So do more events of that kind after others. -/
theorem replay_append {es fs : List Event} (h : t.Agrees (bank.replay es))
    (hfs : ∀ e ∈ fs, Spares e) : t.Agrees (bank.replay (es ++ fs)) := by
  rw [CsrFile.replay_append]
  exact h.replay hfs

/-! ### Operations on the table -/

theorem assign (h : t.Agrees bank) (hp : bank.programmable = true) {pa va size entry : UInt64}
    (ha : t.Accepts pa size entry) :
    Agrees ⟨t.slots.set entry.toNat (some ⟨pa, va, size⟩) ha.entry_lt⟩
      (bank.replay (assignEvents bank ⟨pa, va, size⟩ entry)) where
  reflects e := by
    have hconfig := configByte_replay_assignEvents ha.entry_lt bank e ⟨pa, va, size⟩
    have haddress := pmaAddress_replay_assignEvents ha.entry_lt bank e ⟨pa, va, size⟩
    rw [t.get_slots_set ha.entry_lt]
    -- the entry itself is as assigned, any other one as before
    by_cases he : e.val = entry.toNat
    · rw [if_pos he] at hconfig haddress ⊢
      exact ⟨hconfig, haddress, ha.isPowerOfTwo_size, ha.page_le_size, ha.size_dvd_pa⟩
    · rw [if_neg he] at hconfig haddress ⊢
      exact (h.reflects e).congr hconfig haddress
  programmable _ _ _ := hp

theorem release (h : t.Agrees bank) (i : Fin entries) :
    Agrees ⟨t.slots.set i none i.isLt⟩ (bank.replay (releaseEvents bank i.val.toUInt64)) := by
  have hentry : i.val.toUInt64.toNat = i.val := toNat_toUInt64_val i
  have hlt : i.val.toUInt64.toNat < entries := hentry.symm ▸ i.isLt
  refine ⟨fun e ↦ ?_, fun e r hr ↦ ?_⟩
  · have hconfig := configByte_replay_releaseEvents hlt bank e
    have haddress := pmaAddress_replay_releaseEvents hlt bank e
    rw [hentry] at hconfig haddress
    rw [t.get_slots_set i.isLt]
    -- the slot of the entry is free now, so its address does not matter
    by_cases he : e.val = i.val
    · rw [if_pos he] at hconfig ⊢
      exact hconfig
    · rw [if_neg he] at hconfig haddress ⊢
      exact (h.reflects e).congr hconfig haddress
  · rw [t.get_slots_set i.isLt] at hr
    split at hr
    · cases hr
    · exact h.programmable e r hr

theorem clear (h : t.Agrees bank) : empty.Agrees (bank.replay (clearEvents bank)) := by
  cases hp : bank.programmable with
  | true =>
    refine agrees_empty ?_ ?_
    · rw [clearEvents, hp]
      rfl
    · rw [clearEvents, hp]
      rfl
  | false =>
    -- nothing is written, and no slot can have been in use
    have hbank : bank.replay (clearEvents bank) = bank := by
      rw [clearEvents, hp]
      rfl
    have hnone : ∀ e : Fin entries, t.slots.get e = none := by
      intro e
      rcases hs : t.slots.get e with - | r
      · rfl
      · rw [h.programmable e r hs] at hp
        cases hp
    have hempty : empty = t := by
      refine congrArg Table.mk (Vector.ext fun j hj ↦ ?_)
      rw [Vector.getElem_replicate]
      exact (hnone ⟨j, hj⟩).symm
    rw [hbank, hempty]
    exact h

end Agrees

end Table

end BringUp.Pma
