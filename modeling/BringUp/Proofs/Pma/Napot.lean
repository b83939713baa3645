import Mathlib.Algebra.Group.Nat.Defs
import BringUp.Proofs.Pma.Table

/-!
# What an address word matches

An address register holds place and size in one word: the run of ones at the low end tells the
size, and the bits above it are compared with the address. `Covers` is that comparison as the
hardware makes it, on the word alone, whatever region it was computed from.

For a well-formed region the two parts of the word do not overlap: the size has its run of ones
where a multiple of the size has zeros (`Region.WellFormed.toNat_address`). So the comparison cuts
an address down to a multiple of the size (`toNat_and_not_lowBits`), and the bytes matched are
those of the region (`Region.WellFormed.covers_address_iff`), the last byte of the address space
included. A word therefore belongs to one region only.
-/

namespace BringUp.Pma

/-! ### The comparison -/

/-- The bits of an address word that tell the size: the run of ones at the low end and the zero
that ends it. -/
def sizeBits (p : UInt64) : UInt64 :=
  p ^^^ (p + 1)

/-- Whether an entry with this address word matches an address. -/
def Covers (p a : UInt64) : Prop :=
  (a >>> 2) &&& ~~~sizeBits p = p &&& ~~~sizeBits p

instance (p a : UInt64) : Decidable (Covers p a) :=
  inferInstanceAs (Decidable ((a >>> 2) &&& ~~~sizeBits p = p &&& ~~~sizeBits p))

variable {mask : UInt64} {n : Nat}

/-- Clearing the low bits of a word cuts it down to a multiple of a power of two. -/
theorem toNat_and_not_lowBits (h : mask.toNat = 2 ^ n - 1) (x : UInt64) :
    (x &&& ~~~mask).toNat = 2 ^ n * (x.toNat / 2 ^ n) := by
  have hwidth : UInt64.size = 2 ^ 64 := rfl
  have hnot : (~~~mask).toNat = 2 ^ 64 - (mask.toNat + 1) := by
    rw [UInt64.toNat_not, hwidth, Nat.sub_sub, Nat.add_comm 1]
  refine Nat.eq_of_testBit_eq fun j ↦ ?_
  rw [UInt64.toNat_and, Nat.testBit_and, hnot, Nat.testBit_two_pow_sub_succ mask.toNat_lt, h,
    Nat.testBit_two_pow_sub_one, Nat.testBit_two_pow_mul, Nat.testBit_div_two_pow]
  rcases Nat.lt_or_ge j n with hlow | hhigh
  · simp [hlow, Nat.not_le.2 hlow]
  · rw [Nat.sub_add_cancel hhigh]
    -- above the word both sides are zero
    rcases Nat.lt_or_ge j 64 with hin | hout
    · simp [hin, hhigh]
    · have hlt : x.toNat < 2 ^ j :=
        Nat.lt_of_lt_of_le x.toNat_lt (Nat.pow_le_pow_right (by decide) hout)
      have hzero : x.toNat.testBit j = false := Nat.testBit_lt_two_pow hlt
      simp [hzero]

/-- Words with the same high bits lie between the same multiples of a power of two. -/
theorem and_not_lowBits_eq_iff (h : mask.toNat = 2 ^ n - 1) (x y : UInt64) :
    x &&& ~~~mask = y &&& ~~~mask ↔ x.toNat / 2 ^ n = y.toNat / 2 ^ n := by
  rw [← UInt64.toNat_inj, toNat_and_not_lowBits h, toNat_and_not_lowBits h,
    Nat.mul_right_inj (Nat.ne_of_gt (Nat.two_pow_pos n))]

theorem two_pow_lt_succ (k : Nat) : 2 ^ k < 2 ^ (k + 1) :=
  Nat.pow_lt_pow_right (by decide) (Nat.lt_succ_self k)

/-- Adding one to a run of ones turns over the ones and the zero that ends it, and nothing above. -/
theorem run_xor_succ (k q : Nat) :
    (2 ^ (k + 1) * q + (2 ^ k - 1)) ^^^ (2 ^ (k + 1) * q + 2 ^ k) = 2 ^ (k + 1) - 1 := by
  have hlt := two_pow_lt_succ k
  refine Nat.eq_of_testBit_eq fun j ↦ ?_
  rw [Nat.testBit_xor, Nat.testBit_two_pow_mul_add q (Nat.sub_lt_of_lt hlt),
    Nat.testBit_two_pow_mul_add q hlt, Nat.testBit_two_pow_sub_one, Nat.testBit_two_pow_sub_one,
    Nat.testBit_two_pow]
  rcases Nat.lt_or_ge j (k + 1) with hlow | hhigh
  · rw [if_pos hlow, if_pos hlow]
    rcases Nat.lt_or_eq_of_le (Nat.le_of_lt_succ hlow) with h | rfl
    · simp [h, hlow, Nat.ne_of_gt h]
    · simp
  · rw [if_neg (Nat.not_lt.2 hhigh), if_neg (Nat.not_lt.2 hhigh), Bool.xor_self,
      decide_eq_false (Nat.not_lt.2 hhigh)]

theorem toNat_shiftRight_two (a : UInt64) : (a >>> 2).toNat = a.toNat / 4 := by
  rw [UInt64.toNat_shiftRight, Nat.shiftRight_eq_div_pow]
  rfl

theorem toNat_shiftRight_three (a : UInt64) : (a >>> 3).toNat = a.toNat / 8 := by
  rw [UInt64.toNat_shiftRight, Nat.shiftRight_eq_div_pow]
  rfl

/-! ### Words of well-formed regions -/

namespace Region

variable {r : Region} {k q : Nat}

/-- The size in units of eight bytes is a power of two, the place in units of four bytes a multiple
of twice that power. -/
theorem WellFormed.exists_parts (h : r.WellFormed) :
    ∃ k q, r.size.toNat = 8 * 2 ^ k ∧ r.pa.toNat = 4 * (2 ^ (k + 1) * q) := by
  obtain ⟨e, he⟩ := h.isPowerOfTwo_size
  obtain ⟨q, hq⟩ := h.size_dvd_pa
  have hpage : 2 ^ 12 ≤ 2 ^ e := he ▸ h.page_le_size
  have hle : 12 ≤ e := (Nat.pow_le_pow_iff_right (by decide)).1 hpage
  obtain ⟨k, rfl⟩ := Nat.exists_eq_add_of_le' (Nat.le_trans (by decide : 3 ≤ 12) hle)
  have hfour : 2 ^ (k + 3) = 4 * 2 ^ (k + 1) := by
    rw [Nat.pow_succ', Nat.pow_succ', ← Nat.mul_assoc]
  have height : 2 ^ (k + 3) = 8 * 2 ^ k := by rw [hfour, Nat.pow_succ', ← Nat.mul_assoc]
  exact ⟨k, q, he.trans height, by rw [hq, he, hfour, Nat.mul_assoc]⟩

section

variable (hsize : r.size.toNat = 8 * 2 ^ k) (hpa : r.pa.toNat = 4 * (2 ^ (k + 1) * q))
include hsize hpa

/-- Place and size do not overlap in the address word. -/
theorem toNat_address : r.address.toNat = 2 ^ (k + 1) * q + (2 ^ k - 1) := by
  have hlt : 2 ^ k - 1 < 2 ^ (k + 1) := Nat.sub_lt_of_lt (two_pow_lt_succ k)
  have hplace : (r.pa >>> 2).toNat = 2 ^ (k + 1) * q := by
    rw [toNat_shiftRight_two, hpa, Nat.mul_div_cancel_left _ (by decide)]
  have hunits : (r.size >>> 3).toNat = 2 ^ k := by
    rw [toNat_shiftRight_three, hsize, Nat.mul_div_cancel_left _ (by decide)]
  have hone : (1 : UInt64) ≤ r.size >>> 3 := by
    rw [UInt64.le_iff_toNat_le, hunits]
    exact Nat.two_pow_pos k
  rw [address, UInt64.toNat_or, UInt64.toNat_sub_of_le _ _ hone, hplace, hunits,
    Nat.two_pow_add_eq_or_of_lt hlt]
  rfl

/-- The size can be read off the address word. -/
theorem toNat_sizeBits : (sizeBits r.address).toNat = 2 ^ (k + 1) - 1 := by
  have haddress := toNat_address hsize hpa
  have hpos : 0 < 2 ^ k := Nat.two_pow_pos k
  -- both parts lie in the low 62 bits, so adding one does not leave the word
  have hsucc : (r.address + 1).toNat = 2 ^ (k + 1) * q + 2 ^ k := by
    have hpalt := r.pa.toNat_lt
    have hsizelt := r.size.toNat_lt
    rw [UInt64.toNat_add, haddress, UInt64.toNat_one]
    omega
  rw [sizeBits, UInt64.toNat_xor, haddress, hsucc, run_xor_succ]

end

/-- **The word of a well-formed region matches the bytes of the region, and no other.** -/
theorem WellFormed.covers_address_iff (h : r.WellFormed) (a : UInt64) :
    Covers r.address a ↔ r.pa.toNat ≤ a.toNat ∧ a.toNat < r.pa.toNat + r.size.toNat := by
  obtain ⟨k, q, hsize, hpa⟩ := h.exists_parts
  have hpos : 0 < 2 ^ (k + 1) := Nat.two_pow_pos _
  have hword : r.address.toNat / 2 ^ (k + 1) = q := by
    rw [toNat_address hsize hpa, Nat.mul_add_div hpos,
      Nat.div_eq_of_lt (Nat.sub_lt_of_lt (two_pow_lt_succ k)), Nat.add_zero]
  rw [Covers, and_not_lowBits_eq_iff (toNat_sizeBits hsize hpa), hword, toNat_shiftRight_two,
    Nat.div_eq_iff hpos, hpa, hsize, Nat.mul_comm q]
  rw [Nat.pow_succ']
  omega

/-- **A word belongs to one region**: the size is read off first, and what is left is the place. -/
theorem eq_of_address_eq {r₁ r₂ : Region} (h₁ : r₁.WellFormed) (h₂ : r₂.WellFormed)
    (h : r₁.address = r₂.address) : r₁.pa = r₂.pa ∧ r₁.size = r₂.size := by
  obtain ⟨k₁, q₁, hsize₁, hpa₁⟩ := h₁.exists_parts
  obtain ⟨k₂, q₂, hsize₂, hpa₂⟩ := h₂.exists_parts
  have hbits := toNat_sizeBits hsize₁ hpa₁
  rw [h, toNat_sizeBits hsize₂ hpa₂, Nat.pow_succ', Nat.pow_succ'] at hbits
  have hpow : 2 ^ k₁ = 2 ^ k₂ := by
    have hpos₁ : 0 < 2 ^ k₁ := Nat.two_pow_pos k₁
    have hpos₂ : 0 < 2 ^ k₂ := Nat.two_pow_pos k₂
    omega
  have haddress := toNat_address hsize₁ hpa₁
  rw [h, toNat_address hsize₂ hpa₂, hpow] at haddress
  refine ⟨UInt64.toNat_inj.1 ?_, UInt64.toNat_inj.1 ?_⟩
  · rw [hpa₁, hpa₂, Nat.add_right_cancel haddress]
  · rw [hsize₁, hsize₂, hpow]

end Region

/-! ### Requests -/

/-- The registers that a request wrote between two machines are the address register of an entry,
with this word, and the configuration register of the entry. -/
def Programs (m : Machine) (entry p : UInt64) (m' : Machine) : Prop :=
  ∃ config, m'.csrWrites =
    m.csrWrites ++ [(.pmaAddr entry.toUInt8, p), (Csr.pmaCfgOf entry, config)]

/-- A request cannot have programmed two words. -/
theorem Programs.unique {m m' : Machine} {entry p₁ p₂ : UInt64} (h₁ : Programs m entry p₁ m')
    (h₂ : Programs m entry p₂ m') : p₁ = p₂ := by
  obtain ⟨config₁, h₁⟩ := h₁
  obtain ⟨config₂, h₂⟩ := h₂
  have h := List.append_cancel_left (h₁.symm.trans h₂)
  simp only [List.cons.injEq, Prod.mk.injEq] at h
  exact h.1.2

namespace Table

variable {t : Table} {pa size entry : UInt64}

theorem Accepts.wellFormed (h : t.Accepts pa size entry) (va : UInt64) :
    (Region.mk pa va size).WellFormed :=
  ⟨h.isPowerOfTwo_size, h.page_le_size, h.size_dvd_pa⟩

/-- A request fails without having written a register, or the table accepts it and it programs the
word of the region. -/
theorem assign_cases (t : Table) (pa va size entry : UInt64) (m : Machine) :
    (∃ cause m', t.assign pa va size entry m = .error (.failure cause) m' ∧
        m'.csrWrites = m.csrWrites) ∨
      t.Accepts pa size entry ∧ ∃ t' m', t.assign pa va size entry m = .ok t' m' ∧
        Programs m entry (Region.mk pa va size).address m' := by
  have hwrites : ∀ es : List Event,
      (m.perform es).csrWrites = m.csrWrites ++ es.filterMap Event.csrWrite? := by
    intro es
    rw [Machine.csrWrites, (m.leads_perform es).trace_eq, List.filterMap_append]
    rfl
  rcases hp : m.csrs.programmable with - | -
  · exact .inl ⟨_, _, (t.runs_assign_of_not_programmable hp pa va size entry).apply,
      (hwrites _).trans (List.append_nil _)⟩
  by_cases ha : t.Accepts pa size entry
  · obtain ⟨text, hruns⟩ := t.runs_assign_of_accepts hp ha va
    exact .inr ⟨ha, _, _, hruns.apply, _, hwrites _⟩
  · obtain ⟨what, hruns⟩ := t.runs_assign_of_not_accepts hp ha va
    exact .inl ⟨_, _, hruns.apply, (hwrites _).trans (List.append_nil _)⟩

/-- A request that was granted programmed the word of a well-formed region. -/
theorem wellFormed_of_assign {va : UInt64} {m m' : Machine} {t' : Table}
    (h : t.assign pa va size entry m = .ok t' m') :
    (Region.mk pa va size).WellFormed ∧ Programs m entry (Region.mk pa va size).address m' := by
  obtain ⟨cause, m'', herror, -⟩ | ⟨ha, t'', m'', hok, hprograms⟩ :=
    t.assign_cases pa va size entry m
  · rw [h] at herror
    nomatch herror
  · rw [h] at hok
    obtain ⟨rfl, rfl⟩ : t' = t'' ∧ m' = m'' := by simpa using hok
    exact ⟨ha.wellFormed va, hprograms⟩

/-- **A request covers exactly the region it names.** Whatever the operands, a request is granted or
fails, and no computation leaves the word. A granted one writes one word to the address register of
its entry, and that word matches the bytes of the region and no other; the end is counted without a
bound, so a region may be the last of the address space. No other place or size, requested of any
table on any machine, gets the same word. -/
theorem assign_covers_exactly (t : Table) (pa va size entry : UInt64) (m : Machine) :
    (∀ s m', t.assign pa va size entry m = .error s m' → ∃ cause, s = .failure cause) ∧
      ∀ t' m', t.assign pa va size entry m = .ok t' m' → ∃ p, Programs m entry p m' ∧
        (∀ a, Covers p a ↔ pa.toNat ≤ a.toNat ∧ a.toNat < pa.toNat + size.toNat) ∧
        ∀ (t₂ : Table) (pa₂ va₂ size₂ entry₂ : UInt64) (m₂ : Machine) t₂' m₂' p₂,
          t₂.assign pa₂ va₂ size₂ entry₂ m₂ = .ok t₂' m₂' → Programs m₂ entry₂ p₂ m₂' →
          (pa₂, size₂) ≠ (pa, size) → p₂ ≠ p := by
  refine ⟨fun s m' hs ↦ ?_, fun t' m' hok ↦ ?_⟩
  · obtain ⟨cause, m'', herror, -⟩ | ⟨-, t'', m'', hok, -⟩ := t.assign_cases pa va size entry m
    · rw [hs] at herror
      obtain ⟨rfl, -⟩ : s = .failure cause ∧ m' = m'' := by simpa using herror
      exact ⟨cause, rfl⟩
    · rw [hs] at hok
      nomatch hok
  · obtain ⟨hregion, hprograms⟩ := wellFormed_of_assign hok
    refine ⟨_, hprograms, hregion.covers_address_iff, ?_⟩
    intro t₂ pa₂ va₂ size₂ entry₂ m₂ t₂' m₂' p₂ hok₂ hprograms₂ hne heq
    obtain ⟨hregion₂, hword₂⟩ := wellFormed_of_assign hok₂
    obtain ⟨hpa, hsize⟩ := Region.eq_of_address_eq hregion₂ hregion
      ((hword₂.unique hprograms₂).trans heq)
    exact hne (Prod.ext hpa hsize)

/-- A machine on which memory attributes are programmable. -/
def capable : Machine :=
  { csrs := CsrFile.zero.set .mmscCfg MiscConfig.programmablePma, watchdog := default }

/-- The last page and the upper half of the address space: requests that end where the address
space does, and get different words. -/
theorem assign_covers_exactly_up_to_end :
    ∃ t' m' p t₂ m₂ p₂,
      (empty.assign 0xFFFFFFFFFFFFF000 0 0x1000 3 capable = .ok t' m' ∧ Programs capable 3 p m') ∧
        (Covers p 0xFFFFFFFFFFFFFFFF ∧ ¬ Covers p 0xFFFFFFFFFFFFEFFF) ∧
        (empty.assign 0x8000000000000000 0 0x8000000000000000 9 capable = .ok t₂ m₂ ∧
          Programs capable 9 p₂ m₂) ∧ p₂ ≠ p := by
  have hgranted : ∀ pa size entry,
      Firmware.endsWith (fun _ _ ↦ true) (empty.assign pa 0 size entry) capable = true →
      ∃ t' m', empty.assign pa 0 size entry capable = .ok t' m' := by
    intro pa size entry h
    obtain ⟨t', m', hok, -⟩ := Firmware.endsWith_iff.1 h
    exact ⟨t', m', hok⟩
  obtain ⟨t', m', hok⟩ := hgranted 0xFFFFFFFFFFFFF000 0x1000 3 (by decide +kernel)
  obtain ⟨t₂, m₂, hok₂⟩ := hgranted 0x8000000000000000 0x8000000000000000 9 (by decide +kernel)
  obtain ⟨p, hprograms, hcovers, hother⟩ := (assign_covers_exactly _ _ _ _ _ _).2 t' m' hok
  obtain ⟨p₂, hprograms₂, -⟩ := (assign_covers_exactly _ _ _ _ _ _).2 t₂ m₂ hok₂
  refine ⟨t', m', p, t₂, m₂, p₂, ⟨hok, hprograms⟩, ⟨?_, ?_⟩, ⟨hok₂, hprograms₂⟩, ?_⟩
  · exact (hcovers _).2 (by decide)
  · exact fun h ↦ absurd ((hcovers _).1 h) (by decide)
  · exact hother _ _ _ _ _ _ _ _ _ hok₂ hprograms₂ (by decide)

end Table

end BringUp.Pma
