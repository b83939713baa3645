import BringUp.Proofs.Machine.Bank
import BringUp.Proofs.Pma.ConfigByte

/-!
# Operations on the table of regions

One statement for each way in which an operation of `Pma.Table` can run, with the events that it
leaves behind. A request for an entry is granted exactly if the core has programmable attributes
and the table `Accepts` it; every other request fails before the first register write.

The conditions are put in terms of numbers here: a size is a power of two, a place is a multiple of
the size. `validSize_iff` and `aligned_iff` say that the word tests decide them.
-/

namespace BringUp

/-- Whether memory attributes are programmable, as the bank tells. -/
def CsrFile.programmable (bank : CsrFile) : Bool :=
  hasBits (bank.get .mmscCfg) MiscConfig.programmablePma

namespace Pma

open Firmware

variable {bank : CsrFile}

/-! ### Regions -/

/-- A region that the hardware can be given. -/
structure Region.WellFormed (r : Region) : Prop where
  /-- The size is a power of two. -/
  isPowerOfTwo_size : r.size.toNat.isPowerOfTwo
  /-- The size is a page at least. -/
  page_le_size : 4096 ≤ r.size.toNat
  /-- The place is a multiple of the size. -/
  size_dvd_pa : r.size.toNat ∣ r.pa.toNat

/-- Place and size as the address register takes them. -/
def Region.address (r : Region) : UInt64 :=
  (r.pa >>> 2) ||| ((r.size >>> 3) - 1)

theorem Region.encoding_eq {r : Region} (h : 4096 ≤ r.size.toNat) :
    r.encoding = .ok r.address := by
  have hle : (1 : UInt64) ≤ r.size >>> 3 := by
    rw [UInt64.le_iff_toNat_le, UInt64.toNat_shiftRight]
    simp only [UInt64.reduceToNat, Nat.reduceMod, Nat.shiftRight_eq_div_pow, Nat.reducePow]
    omega
  rw [encoding, exactSub_of_le hle]
  rfl

theorem validSize_iff {size : UInt64} :
    validSize size = true ↔ size.toNat.isPowerOfTwo ∧ 4096 ≤ size.toNat := by
  have hpow : isPowerOfTwo size = true ↔ size.toNat.isPowerOfTwo := by
    rw [isPowerOfTwo_iff]
    constructor
    · rintro ⟨k, -, hk⟩
      exact ⟨k, by rw [hk, Nat.one_shiftLeft]⟩
    · rintro ⟨k, hk⟩
      refine ⟨k, ?_, by rw [hk, Nat.one_shiftLeft]⟩
      exact (Nat.pow_lt_pow_iff_right (a := 2) (by decide)).1 (hk ▸ size.toNat_lt)
  rw [validSize, Bool.and_eq_true, decide_eq_true_eq, hpow, UInt64.le_iff_toNat_le]
  rfl

theorem aligned_iff {pa size : UInt64} : aligned pa size = true ↔ size.toNat ∣ pa.toNat := by
  rw [aligned, beq_iff_eq, ← UInt64.toNat_inj, UInt64.toNat_mod, Nat.dvd_iff_mod_eq_zero]
  rfl

/-! ### The hardware -/

theorem runs_programmable (bank : CsrFile) :
    Runs programmable bank [.csrRead .mmscCfg (bank.get .mmscCfg)] (.ok bank.programmable) :=
  (runs_csrRead .mmscCfg bank).bind (runs_pure _ _)

/-- The register accesses that write a configuration byte. -/
def configEvents (bank : CsrFile) (entry : UInt64) (config : UInt8) : List Event :=
  [.csrRead (Csr.pmaCfgOf entry) (bank.get (Csr.pmaCfgOf entry)),
   .csrWrite (Csr.pmaCfgOf entry) (replaceConfig (bank.get (Csr.pmaCfgOf entry)) entry config)]

/-- They make one write of it. -/
theorem replay_configEvents (bank : CsrFile) (entry : UInt64) (config : UInt8) :
    bank.replay (configEvents bank entry config) = bank.set (Csr.pmaCfgOf entry)
      (replaceConfig (bank.get (Csr.pmaCfgOf entry)) entry config) := rfl

theorem runs_writeConfig (entry : UInt64) (config : UInt8) (bank : CsrFile) :
    Runs (writeConfig entry config) bank (configEvents bank entry config) (.ok ()) :=
  (runs_csrRead _ bank).bind (runs_csrWrite _ _ _)

namespace Table

variable (t : Table)

/-! ### Slots -/

theorem toNat_toUInt64_val (i : Fin entries) : i.val.toUInt64.toNat = i.val := by
  have hi : i.val < 16 := i.isLt
  simp only [Nat.toUInt64, UInt64.toNat_ofNat']
  omega

theorem get?_eq_getElem {entry : UInt64} (h : entry.toNat < entries) :
    t.get? entry = t.slots[entry.toNat] := by
  rw [get?, Vector.getElem?_eq_getElem h, Option.join_some]

theorem get_slots_set {i : Nat} (hi : i < entries) (slot : Option Region) (e : Fin entries) :
    (t.slots.set i slot hi).get e = if e.val = i then slot else t.slots.get e := by
  show (t.slots.set i slot hi)[e.val] = _
  rw [Vector.getElem_set]
  simp only [eq_comm]
  rfl

@[simp] theorem get_slots_empty (e : Fin entries) : empty.slots.get e = none :=
  Vector.getElem_replicate e.isLt

theorem entryOf?_eq_none_iff {va : UInt64} :
    t.entryOf? va = none ↔
      ∀ (i : Fin entries) (r : Region), t.slots.get i = some r → r.va ≠ va := by
  rw [entryOf?, Vector.findFinIdx?_eq_none_iff]
  constructor
  · intro h i r hr heq
    have := h (t.slots.get i) (Vector.getElem_mem i.isLt)
    simp [hr, heq] at this
  · intro h slot hslot
    obtain ⟨i, hi, rfl⟩ := Vector.getElem_of_mem hslot
    rcases hr : t.slots[i] with - | r
    · simp
    · simpa using h ⟨i, hi⟩ r hr

/-- Whether a slot holds a region of an owner. -/
theorem any_va_eq_iff {slot : Option Region} {va : UInt64} :
    (slot.any fun r ↦ r.va == va) = true ↔ ∃ r, slot = some r ∧ r.va = va := by
  simp [Option.any_eq_true]

/-- The entry found for an owner holds a region of that owner, and no lower one does. -/
theorem entryOf?_eq_some_iff {va : UInt64} {i : Fin entries} :
    t.entryOf? va = some i ↔ (∃ r, t.slots.get i = some r ∧ r.va = va) ∧
      ∀ j < i, ∀ r, t.slots.get j = some r → r.va ≠ va := by
  have hsize : t.slots.toArray.size = entries := t.slots.size_toArray
  have hcast : ∀ k : Fin t.slots.toArray.size, Fin.cast hsize k = i ↔ k = Fin.cast hsize.symm i :=
    fun k ↦ ⟨fun h ↦ by rw [← h]; rfl, fun h ↦ by rw [h]; rfl⟩
  rw [entryOf?, Vector.findFinIdx?, Option.map_eq_some_iff]
  simp only [hcast, exists_eq_right, Array.findFinIdx?_eq_some_iff, any_va_eq_iff]
  refine and_congr Iff.rfl ⟨fun h j hj r hr heq ↦ ?_, fun h j hj ↦ ?_⟩
  · exact h (Fin.cast hsize.symm j) hj ⟨r, hr, heq⟩
  · rintro ⟨r, hr, heq⟩
    exact h (Fin.cast hsize j) hj r hr heq

/-- An entry given to an owner is the owner's lowest one if no lower one was the owner's already. -/
theorem entryOf?_set_self {e : Fin entries} {r : Region}
    (h : ∀ i < e, ∀ r', t.slots.get i = some r' → r'.va ≠ r.va) :
    entryOf? ⟨t.slots.set e (some r) e.isLt⟩ r.va = some e := by
  rw [entryOf?_eq_some_iff]
  refine ⟨⟨r, ?_, rfl⟩, fun i hi r' hr' ↦ h i hi r' ?_⟩
  · rw [get_slots_set, if_pos rfl]
  · rwa [get_slots_set, if_neg (Nat.ne_of_lt hi)] at hr'

/-- Whatever happens to a higher entry, an owner's lowest one stays the same. -/
theorem entryOf?_set_of_lt {i e : Fin entries} (hlt : i < e) {va : UInt64}
    (h : t.entryOf? va = some i) (slot : Option Region) :
    entryOf? ⟨t.slots.set e slot e.isLt⟩ va = some i := by
  rw [entryOf?_eq_some_iff] at h ⊢
  obtain ⟨⟨r, hr, hva⟩, hlower⟩ := h
  refine ⟨⟨r, ?_, hva⟩, fun j hj r' hr' ↦ hlower j hj r' ?_⟩
  · rwa [get_slots_set, if_neg (Nat.ne_of_lt hlt)]
  · rwa [get_slots_set, if_neg (Nat.ne_of_lt (Nat.lt_trans hj hlt))] at hr'

/-- The lowest entry of an owner after the owner was given one. -/
theorem entryOf?_set_cases (e : Fin entries) (r : Region) :
    (∀ i < e, ∀ r', t.slots.get i = some r' → r'.va ≠ r.va) ∧
        entryOf? ⟨t.slots.set e (some r) e.isLt⟩ r.va = some e ∨
      ∃ i < e, t.entryOf? r.va = some i ∧
        entryOf? ⟨t.slots.set e (some r) e.isLt⟩ r.va = some i := by
  rcases hi : t.entryOf? r.va with - | i
  · have hnone := t.entryOf?_eq_none_iff.1 hi
    exact .inl ⟨fun i _ ↦ hnone i, t.entryOf?_set_self fun i _ ↦ hnone i⟩
  · by_cases hlt : i < e
    · exact .inr ⟨i, hlt, rfl, t.entryOf?_set_of_lt hlt hi (some r)⟩
    · -- the lowest entry is not below, so no entry below is the owner's
      have hlower := (t.entryOf?_eq_some_iff.1 hi).2
      have hbelow : ∀ j < e, j < i := fun j hj ↦ Nat.lt_of_lt_of_le hj (Nat.le_of_not_lt hlt)
      exact .inl ⟨fun j hj ↦ hlower j (hbelow j hj),
        t.entryOf?_set_self fun j hj ↦ hlower j (hbelow j hj)⟩

/-- Giving a free entry a region and taking it away again leaves the table as it was. -/
theorem set_none_set {e : Fin entries} (h : t.slots.get e = none) (slot : Option Region) :
    (⟨(t.slots.set e slot e.isLt).set e none e.isLt⟩ : Table) = t := by
  refine congrArg Table.mk ?_
  rw [Vector.set_set, ← h]
  exact Vector.set_getElem_self e.isLt

/-! ### Assigning -/

/-- What the table has to say for a request to be granted. -/
structure Accepts (pa size entry : UInt64) : Prop where
  /-- The entry exists. -/
  entry_lt : entry.toNat < entries
  /-- The size is a power of two. -/
  isPowerOfTwo_size : size.toNat.isPowerOfTwo
  /-- The size is a page at least. -/
  page_le_size : 4096 ≤ size.toNat
  /-- The place is a multiple of the size. -/
  size_dvd_pa : size.toNat ∣ pa.toNat
  /-- The entry is free. -/
  free : t.get? entry = none

theorem runs_assign_of_not_programmable (h : bank.programmable = false)
    (pa va size entry : UInt64) :
    Runs (t.assign pa va size entry) bank [.csrRead .mmscCfg (bank.get .mmscCfg)]
      (.error (.failure (.unsupported assignFunction))) := by
  refine (runs_programmable bank).bind_cons ?_
  rw [h]
  exact runs_fail _ _

/-- Only the slot of the entry matters to a request. -/
theorem accepts_congr {t t' : Table} {pa size entry : UInt64} (h : t'.get? entry = t.get? entry) :
    t'.Accepts pa size entry ↔ t.Accepts pa size entry := by
  constructor
  · rintro ⟨hentry, hpow, hpage, hdvd, hfree⟩
    exact ⟨hentry, hpow, hpage, hdvd, h ▸ hfree⟩
  · rintro ⟨hentry, hpow, hpage, hdvd, hfree⟩
    exact ⟨hentry, hpow, hpage, hdvd, h.trans hfree⟩

/-- A request that the table does not accept is refused before anything is written, and for the same
reason by every table that has the same in the slot. -/
theorem exists_refusal_of_not_accepts {pa size entry : UInt64}
    (hna : ¬ t.Accepts pa size entry) (va : UInt64) :
    ∃ what, ∀ (t' : Table) (bank : CsrFile), t'.get? entry = t.get? entry →
      bank.programmable = true →
      Runs (t'.assign pa va size entry) bank [.csrRead .mmscCfg (bank.get .mmscCfg)]
        (.error (.failure (.badOperand what))) := by
  have hbind : ∀ {f : Bool → Firmware Table} {bank : CsrFile} {what : String},
      bank.programmable = true → f true = fail (.badOperand what) →
      Runs (programmable >>= f) bank [.csrRead .mmscCfg (bank.get .mmscCfg)]
        (.error (.failure (.badOperand what))) := by
    intro f bank what h hf
    refine (runs_programmable bank).bind_cons ?_
    rw [h, hf]
    exact runs_fail _ _
  -- the checks in their order: entry, size, place, and whether the entry is free
  by_cases hentry : entry.toNat < entries
  · by_cases hsize : validSize size = true
    · by_cases halign : aligned pa size = true
      · have hfree : (t.get? entry).isSome = true := by
          rw [← Option.ne_none_iff_isSome]
          intro hnone
          exact hna ⟨hentry, (validSize_iff.1 hsize).1, (validSize_iff.1 hsize).2,
            aligned_iff.1 halign, hnone⟩
        refine ⟨"pma entry in use", fun t' bank hslot hp ↦ hbind hp ?_⟩
        rw [← hslot, t'.get?_eq_getElem hentry] at hfree
        simp only [hentry, hsize, halign, hfree, Bool.not_true, Bool.false_eq_true, if_false,
          if_true, dif_pos]
      · refine ⟨"pma base not aligned to its size", fun t' bank _ hp ↦ hbind hp ?_⟩
        simp only [hentry, hsize, halign, Bool.not_true, Bool.not_false, Bool.false_eq_true,
          if_false, if_true, dif_pos]
    · refine ⟨"pma size must be a power of two of at least 4 KiB", fun t' bank _ hp ↦ hbind hp ?_⟩
      simp only [hentry, hsize, Bool.not_true, Bool.not_false, Bool.false_eq_true, if_false,
        if_true, dif_pos]
  · refine ⟨"pma entry out of range", fun t' bank _ hp ↦ hbind hp ?_⟩
    simp only [hentry, Bool.not_true, Bool.false_eq_true, if_false, dif_neg, not_false_eq_true]

/-- A request that the table does not accept is refused before anything is written. -/
theorem runs_assign_of_not_accepts (h : bank.programmable = true) {pa size entry : UInt64}
    (hna : ¬ t.Accepts pa size entry) (va : UInt64) :
    ∃ what, Runs (t.assign pa va size entry) bank [.csrRead .mmscCfg (bank.get .mmscCfg)]
      (.error (.failure (.badOperand what))) :=
  (t.exists_refusal_of_not_accepts hna va).imp fun _ hrun ↦ hrun t bank rfl h

/-- The register accesses that assign an entry: the address first, then the configuration byte. -/
def assignEvents (bank : CsrFile) (r : Region) (entry : UInt64) : List Event :=
  .csrWrite (.pmaAddr entry.toUInt8) r.address :: configEvents bank entry regionConfig

theorem runs_assign_of_accepts (h : bank.programmable = true) {pa size entry : UInt64}
    (ha : t.Accepts pa size entry) (va : UInt64) :
    ∃ text, Runs (t.assign pa va size entry) bank
      (.csrRead .mmscCfg (bank.get .mmscCfg) ::
        (assignEvents bank ⟨pa, va, size⟩ entry ++ [.log .debug text]))
      (.ok ⟨t.slots.set entry.toNat (some ⟨pa, va, size⟩) ha.entry_lt⟩) := by
  have hlt : entry.toNat < entries := ha.entry_lt
  have hsize : validSize size = true := validSize_iff.2 ⟨ha.isPowerOfTwo_size, ha.page_le_size⟩
  have halign : aligned pa size = true := aligned_iff.2 ha.size_dvd_pa
  have hfree : t.slots[entry.toNat] = none := by
    rw [← t.get?_eq_getElem hlt]
    exact ha.free
  have hencoding : (Region.mk pa va size).encoding = .ok (Region.mk pa va size).address :=
    Region.encoding_eq ha.page_le_size
  refine Exists.imp (fun _ hw ↦ (runs_programmable bank).bind_cons hw) ?_
  rw [h]
  simp only [Bool.not_true, Bool.false_eq_true, if_false, dif_pos hlt, hsize, halign, hfree,
    Option.isSome_none, hencoding, liftExcept_ok_bind]
  refine Exists.imp (fun _ hw ↦ (runs_csrWrite _ _ _).bind_cons hw) ?_
  -- the configuration register is not the address register just written
  have hcfg : bank.get (Csr.pmaCfgOf entry) = (bank.replay [.csrWrite (.pmaAddr entry.toUInt8)
      (Region.mk pa va size).address]).get (Csr.pmaCfgOf entry) :=
    (CsrFile.get_set_of_ne (by simp [Csr.pmaCfgOf]) _ _).symm
  rw [configEvents, hcfg]
  exact ⟨_, (runs_writeConfig _ _ _).bind ((runs_log _ _ _).bind (runs_pure _ _))⟩

/-! ### Releasing and clearing -/

theorem runs_release_of_none {va : UInt64} (h : t.entryOf? va = none) (bank : CsrFile) :
    Runs (t.release va) bank []
      (.error (.failure (.badOperand "no pma region for this address"))) := by
  rw [release, h]
  exact runs_fail _ _

/-- The register accesses that release an entry: the configuration byte first, then the address. -/
def releaseEvents (bank : CsrFile) (entry : UInt64) : List Event :=
  configEvents bank entry 0 ++ [.csrWrite (.pmaAddr entry.toUInt8) 0]

theorem runs_release_of_some {va : UInt64} {i : Fin entries} (h : t.entryOf? va = some i)
    (bank : CsrFile) :
    ∃ text, Runs (t.release va) bank (releaseEvents bank i.val.toUInt64 ++ [.log .debug text])
      (.ok ⟨t.slots.set i none i.isLt⟩) := by
  rw [release, h]
  exact ⟨_, (runs_writeConfig _ _ _).bind ((runs_csrWrite _ _ _).bind
    ((runs_log _ _ _).bind (runs_pure _ _)))⟩

/-- The register accesses that clear the table. -/
def clearEvents (bank : CsrFile) : List Event :=
  .csrRead .mmscCfg (bank.get .mmscCfg) ::
    if bank.programmable then configStarts.map fun entry ↦ .csrWrite (Csr.pmaCfgOf entry) 0 else []

/-- Clearing is a matter of the registers alone. -/
theorem isBus_of_mem_clearEvents : ∀ e ∈ clearEvents bank, e.isBus = false := by
  have hwrites : ∀ e ∈ configStarts.map fun entry ↦ Event.csrWrite (Csr.pmaCfgOf entry) 0,
      e.isBus = false := by
    simp [configStarts, Event.isBus]
  rw [clearEvents, List.forall_mem_cons]
  refine ⟨rfl, ?_⟩
  split
  · exact hwrites
  · exact List.forall_mem_nil _

theorem runs_clear (bank : CsrFile) : Runs clear bank (clearEvents bank) (.ok empty) := by
  refine (runs_programmable bank).bind_cons ?_
  cases bank.programmable with
  | false => exact runs_pure _ _
  | true =>
    simp only [if_true, configStarts, List.forM_eq_forM, List.forM_cons, List.forM_nil, bind_assoc]
    exact (runs_csrWrite _ _ _).bind_cons ((runs_csrWrite _ _ _).bind_cons (runs_pure _ _))

/-! ### What the hardware holds afterwards -/

section Entries

variable {entry : UInt64} (h : entry.toNat < entries) (bank : CsrFile) (e : Fin entries)
include h

/-- Assigning an entry gives it the configuration byte of a region, and no other entry's changes. -/
theorem configByte_replay_assignEvents (r : Region) :
    (bank.replay (assignEvents bank r entry)).configByte e =
      if e.val = entry.toNat then regionConfig else bank.configByte e := by
  -- the configuration register is read from the bank after the first write
  let bank₁ := bank.set (.pmaAddr entry.toUInt8) r.address
  have hread : bank.get (Csr.pmaCfgOf entry) = bank₁.get (Csr.pmaCfgOf entry) :=
    (CsrFile.get_set_of_ne (by simp [Csr.pmaCfgOf]) _ _).symm
  have hbank : bank.replay (assignEvents bank r entry) = bank₁.set (Csr.pmaCfgOf entry)
      (replaceConfig (bank₁.get (Csr.pmaCfgOf entry)) entry regionConfig) := by
    rw [← hread]
    rfl
  rw [hbank, CsrFile.configByte_set_replaceConfig bank₁ h, bank.configByte_set_of_ne (by simp)]

/-- Assigning an entry gives it the address of the region, and no other entry's changes. -/
theorem pmaAddress_replay_assignEvents (r : Region) :
    (bank.replay (assignEvents bank r entry)).pmaAddress e =
      if e.val = entry.toNat then r.address else bank.pmaAddress e := by
  rw [assignEvents, CsrFile.replay_cons, ← bank.pmaAddress_set h]
  exact CsrFile.pmaAddress_set_of_ne _ (by simp [Csr.pmaCfgOf]) _ e

/-- Releasing an entry clears its configuration byte, and no other entry's changes. -/
theorem configByte_replay_releaseEvents :
    (bank.replay (releaseEvents bank entry)).configByte e =
      if e.val = entry.toNat then 0 else bank.configByte e := by
  rw [releaseEvents, CsrFile.replay_append, replay_configEvents,
    ← bank.configByte_set_replaceConfig h]
  exact CsrFile.configByte_set_of_ne _ (by simp) 0 e

/-- Releasing an entry clears its address, and no other entry's changes. -/
theorem pmaAddress_replay_releaseEvents :
    (bank.replay (releaseEvents bank entry)).pmaAddress e =
      if e.val = entry.toNat then 0 else bank.pmaAddress e := by
  have hcsr : ∀ n, Csr.pmaCfgOf entry ≠ .pmaAddr n := by simp [Csr.pmaCfgOf]
  rw [releaseEvents, CsrFile.replay_append, replay_configEvents,
    ← bank.pmaAddress_set_of_ne hcsr (replaceConfig (bank.get (Csr.pmaCfgOf entry)) entry 0)]
  exact CsrFile.pmaAddress_set _ h 0 e

end Entries

end Table

end Pma

end BringUp
