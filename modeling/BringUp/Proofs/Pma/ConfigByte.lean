import BringUp.Pma.Table

/-!
# Configuration bytes

Eight memory attribute entries share a configuration register, one byte each. `byteAt` reads a byte
of a word, and `byteAt_replaceConfig` says that replacing the byte of one entry changes that byte
and no other. `CsrFile.configByte` and `CsrFile.pmaAddress` are what the hardware holds for an
entry; the section on the bank says how register writes change them.
-/

namespace BringUp

/-! ### Bytes of a word -/

/-- The byte at a place of a word, the lowest at place zero. -/
def byteAt (word : UInt64) (i : Nat) : UInt8 :=
  (word >>> UInt64.ofNat (8 * i)).toUInt8

theorem getLsbD_byteAt (word : UInt64) {i j : Nat} (hi : i < 8) (hj : j < 8) :
    (byteAt word i).toBitVec.getLsbD j = word.toBitVec.getLsbD (8 * i + j) := by
  have h : 8 * i % 18446744073709551616 = 8 * i := Nat.mod_eq_of_lt (by omega)
  have h' : 8 * i % 64 = 8 * i := Nat.mod_eq_of_lt (by omega)
  simp [byteAt, hj, h, h']

@[simp] theorem byteAt_zero {i : Nat} (hi : i < 8) : byteAt 0 i = 0 := by
  refine UInt8.toBitVec_inj.1 (BitVec.eq_of_getLsbD_eq fun j hj ↦ ?_)
  rw [getLsbD_byteAt 0 hi hj]
  simp

/-- A word is determined by its bytes. -/
theorem eq_of_byteAt_eq {word word' : UInt64} (h : ∀ i < 8, byteAt word i = byteAt word' i) :
    word = word' := by
  refine UInt64.toBitVec_inj.1 (BitVec.eq_of_getLsbD_eq fun j hj ↦ ?_)
  have hbit : j % 8 < 8 := Nat.mod_lt j (by decide)
  have hbyte : j / 8 < 8 := by omega
  have hbits := congrArg (fun byte ↦ byte.toBitVec.getLsbD (j % 8)) (h (j / 8) hbyte)
  simp only [getLsbD_byteAt _ hbyte hbit, Nat.div_add_mod] at hbits
  exact hbits

namespace Pma

theorem toNat_pmaShift (entry : UInt64) : (Csr.pmaShift entry).toNat = 8 * (entry.toNat % 8) := by
  simp only [Csr.pmaShift, UInt64.toNat_mul, UInt64.toNat_mod, UInt64.reduceToNat]
  omega

private theorem getLsbD_fullByte (j : Nat) : (255#64).getLsbD j = decide (j < 8) := by
  rw [BitVec.getLsbD_ofNat, Nat.testBit_two_pow_sub_one (n := 8)]
  by_cases h : j < 8
  · simp only [h, decide_true, Bool.and_true, decide_eq_true_eq]
    omega
  · simp [h]

/-- The bits of the replaced byte come from the new byte, all others from the word. -/
theorem getLsbD_replaceConfig (word entry : UInt64) (config : UInt8) {j : Nat} (hj : j < 64) :
    (replaceConfig word entry config).toBitVec.getLsbD j =
      if 8 * (entry.toNat % 8) ≤ j ∧ j < 8 * (entry.toNat % 8) + 8 then
        config.toBitVec.getLsbD (j - 8 * (entry.toNat % 8))
      else word.toBitVec.getLsbD j := by
  have hs : (Csr.pmaShift entry).toNat % 64 = 8 * (entry.toNat % 8) := by
    rw [toNat_pmaShift]
    omega
  generalize 8 * (entry.toNat % 8) = k at hs ⊢
  have hff : (0xFF : UInt64).toBitVec = 255#64 := rfl
  have hjk : j - k < 64 := by omega
  have hbits : (replaceConfig word entry config).toBitVec.getLsbD j =
      (word.toBitVec.getLsbD j && !(!decide (j < k) && (255#64).getLsbD (j - k)) ||
        !decide (j < k) && config.toBitVec.getLsbD (j - k)) := by
    simp only [replaceConfig, UInt64.toBitVec_or, UInt64.toBitVec_and, UInt64.toBitVec_not,
      UInt64.toBitVec_shiftLeft, BitVec.getLsbD_or, BitVec.getLsbD_and, BitVec.getLsbD_not,
      BitVec.shiftLeft_eq', BitVec.getLsbD_shiftLeft, UInt8.toBitVec_toUInt64,
      BitVec.getLsbD_setWidth, BitVec.toNat_umod, UInt64.toNat_toBitVec, hff]
    simp [hs, hj, hjk]
  rw [hbits, getLsbD_fullByte]
  -- a bit is below the byte, in it, or above it
  by_cases hlo : j < k
  · rw [if_neg (by omega)]
    simp [hlo]
  · by_cases hhi : j < k + 8
    · rw [if_pos ⟨by omega, hhi⟩]
      simp [hlo, show j - k < 8 by omega]
    · rw [if_neg (by omega), BitVec.getLsbD_of_ge config.toBitVec (j - k) (by omega)]
      simp [hlo, show ¬ j - k < 8 by omega]

/-- **Replacing the byte of an entry changes that byte and no other.** -/
theorem byteAt_replaceConfig (word entry : UInt64) (config : UInt8) {i : Nat} (hi : i < 8) :
    byteAt (replaceConfig word entry config) i =
      if i = entry.toNat % 8 then config else byteAt word i := by
  refine UInt8.toBitVec_inj.1 (BitVec.eq_of_getLsbD_eq fun j hj ↦ ?_)
  rw [getLsbD_byteAt _ hi hj, getLsbD_replaceConfig word entry config (by omega)]
  by_cases h : i = entry.toNat % 8
  · subst h
    rw [if_pos rfl, if_pos (by omega), Nat.add_sub_cancel_left]
  · rw [if_neg h, if_neg (by omega), getLsbD_byteAt word hi hj]

end Pma

/-! ### What the hardware holds for an entry -/

namespace CsrFile

/-- Configuration byte of an entry. -/
def configByte (bank : CsrFile) (entry : Fin Pma.entries) : UInt8 :=
  byteAt (bank.get (.pmaCfg (UInt8.ofNat (2 * (entry.val / 8))))) (entry.val % 8)

/-- Address register of an entry. -/
def pmaAddress (bank : CsrFile) (entry : Fin Pma.entries) : UInt64 :=
  bank.get (.pmaAddr (UInt8.ofNat entry.val))

end CsrFile

/-- The configuration register of an entry is that of its group of eight. -/
theorem Csr.pmaCfgOf_eq {entry : UInt64} (h : entry.toNat < Pma.entries) :
    Csr.pmaCfgOf entry = .pmaCfg (UInt8.ofNat (2 * (entry.toNat / 8))) := by
  have hlt : entry.toNat < 16 := h
  refine congrArg Csr.pmaCfg (UInt8.toNat_inj.1 ?_)
  simp [UInt64.toNat_div]
  omega

namespace CsrFile

variable (bank : CsrFile)

/-- **A configuration write reaches one entry only.** -/
theorem configByte_set_replaceConfig {entry : UInt64} (h : entry.toNat < Pma.entries)
    (config : UInt8) (e : Fin Pma.entries) :
    (bank.set (Csr.pmaCfgOf entry)
        (Pma.replaceConfig (bank.get (Csr.pmaCfgOf entry)) entry config)).configByte e =
      if e.val = entry.toNat then config else bank.configByte e := by
  have he : e.val < 16 := e.isLt
  have hlt : entry.toNat < 16 := h
  rw [Csr.pmaCfgOf_eq h, configByte, configByte, get_set]
  -- in the same register the places in it differ, otherwise the register numbers do
  by_cases hreg : e.val / 8 = entry.toNat / 8
  · rw [if_pos (by rw [hreg]), Pma.byteAt_replaceConfig _ _ _ (Nat.mod_lt _ (by decide)), hreg]
    by_cases hval : e.val = entry.toNat
    · rw [if_pos (by rw [hval]), if_pos hval]
    · rw [if_neg (by omega), if_neg hval]
  · have hne : Csr.pmaCfg (UInt8.ofNat (2 * (e.val / 8))) ≠
        .pmaCfg (UInt8.ofNat (2 * (entry.toNat / 8))) := by
      intro heq
      have := congrArg UInt8.toNat (Csr.pmaCfg.inj heq)
      simp at this
      omega
    rw [if_neg hne, if_neg fun hval ↦ hreg (by rw [hval])]

/-- Writing another register than a configuration register leaves the byte alone. -/
theorem configByte_set_of_ne {csr : Csr} (h : ∀ n, csr ≠ .pmaCfg n) (value : UInt64)
    (e : Fin Pma.entries) : (bank.set csr value).configByte e = bank.configByte e := by
  rw [configByte, get_set_of_ne fun heq ↦ h _ heq.symm, configByte]

/-- Writing another register than an address register leaves the address alone. -/
theorem pmaAddress_set_of_ne {csr : Csr} (h : ∀ n, csr ≠ .pmaAddr n) (value : UInt64)
    (e : Fin Pma.entries) : (bank.set csr value).pmaAddress e = bank.pmaAddress e := by
  rw [pmaAddress, get_set_of_ne fun heq ↦ h _ heq.symm, pmaAddress]

/-- **An address write reaches one entry only.** -/
theorem pmaAddress_set {entry : UInt64} (h : entry.toNat < Pma.entries) (value : UInt64)
    (e : Fin Pma.entries) :
    (bank.set (.pmaAddr entry.toUInt8) value).pmaAddress e =
      if e.val = entry.toNat then value else bank.pmaAddress e := by
  have he : e.val < 16 := e.isLt
  have hlt : entry.toNat < 16 := h
  rw [pmaAddress, pmaAddress, get_set]
  by_cases hval : e.val = entry.toNat
  · rw [if_pos hval, if_pos (by rw [hval]; rfl)]
  · rw [if_neg hval, if_neg]
    intro heq
    have := congrArg UInt8.toNat (Csr.pmaAddr.inj heq)
    simp at this
    omega

end CsrFile

end BringUp
