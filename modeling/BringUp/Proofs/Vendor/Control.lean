import BringUp.Proofs.Vendor.Command

/-!
# What controls do to their registers

A control owns bits of a register: one bit each, but for writes that go around the cache, which own
the two bits of a threshold. Switching a control reads the register, writes it back with those bits
replaced (`Control.turn`), and does what has to follow when a cache was turned off
(`Control.aftermath`). All other bits are kept, whether they have a name or not (`getLsbD_turn`).

Two controls have no bit in common, so they can be switched in either order (`Control.leave_comm`),
and switching one twice is as good as once (`Control.leave_leave`).
-/

namespace BringUp.Vendor

open Firmware

/-! ### Bits of a word -/

/-- A word with some bits set or cleared. -/
def withBits (word bits : UInt64) (on : Bool) : UInt64 :=
  if on then word ||| bits else word &&& ~~~bits

/-- Those bits are changed, and no others. -/
theorem getLsbD_withBits (word bits : UInt64) (on : Bool) {i : Nat} (hi : i < 64) :
    (withBits word bits on).toBitVec.getLsbD i =
      if bits.toBitVec.getLsbD i then on else word.toBitVec.getLsbD i := by
  cases on with
  | true =>
    rw [withBits, if_pos rfl, UInt64.toBitVec_or, BitVec.getLsbD_or]
    cases bits.toBitVec.getLsbD i <;> simp
  | false =>
    rw [withBits, if_neg Bool.false_ne_true, UInt64.toBitVec_and, UInt64.toBitVec_not,
      BitVec.getLsbD_and, BitVec.getLsbD_not, decide_eq_true hi]
    cases bits.toBitVec.getLsbD i <;> simp

/-- The same for a single bit. -/
theorem getLsbD_withBits_twoPow {bits : UInt64} {k : Nat}
    (hbits : bits.toBitVec = BitVec.twoPow 64 k) (word : UInt64) (on : Bool) {i : Nat}
    (hi : i < 64) :
    (withBits word bits on).toBitVec.getLsbD i = if i = k then on else word.toBitVec.getLsbD i := by
  rw [getLsbD_withBits word bits on hi, hbits, BitVec.getLsbD_twoPow]
  by_cases h : i = k
  · subst h
    simp [hi]
  · simp [h, Ne.symm h]

/-- The low bit of the threshold tells whether writes go around, the high bit is always clear. -/
theorem getLsbD_withWriteAround (word : UInt64) (on : Bool) {i : Nat} (hi : i < 64) :
    (withWriteAround word on).toBitVec.getLsbD i =
      if i = 13 then on else if i = 14 then false else word.toBitVec.getLsbD i := by
  have hlow : CacheControl.writeAroundLow.toBitVec = BitVec.twoPow 64 13 := by decide
  have hboth : CacheControl.writeAround.toBitVec = BitVec.twoPow 64 13 ||| BitVec.twoPow 64 14 := by
    decide
  have hoff : (withBits word CacheControl.writeAround false).toBitVec.getLsbD i =
      if i = 13 then false else if i = 14 then false else word.toBitVec.getLsbD i := by
    rw [getLsbD_withBits _ _ _ hi, hboth, BitVec.getLsbD_or, BitVec.getLsbD_twoPow,
      BitVec.getLsbD_twoPow]
    by_cases h13 : i = 13
    · simp [h13]
    · by_cases h14 : i = 14
      · simp [h14]
      · simp [h13, h14, Ne.symm h13, Ne.symm h14]
  cases on with
  | false => exact hoff
  | true =>
    rw [show withWriteAround word true = withBits (withBits word CacheControl.writeAround false)
      CacheControl.writeAroundLow true from rfl, getLsbD_withBits_twoPow hlow _ _ hi, hoff]
    split <;> rfl

theorem runs_switchBits (csr : Csr) (bits : UInt64) (on : Bool) (bank : CsrFile) :
    Runs (switchBits csr bits on) bank
      [.csrRead csr (bank.get csr), .csrWrite csr (withBits (bank.get csr) bits on)] (.ok ()) := by
  cases on with
  | true => exact (runs_csrRead _ _).bind_cons (runs_csrWrite _ _ _)
  | false => exact (runs_csrRead _ _).bind_cons (runs_csrWrite _ _ _)

namespace Control

/-- The register that the control is in. -/
def register : Control → Csr
  | nonBlocking => .mmiscCtl
  | _ => .mcacheCtl

/-- The register's word with the control switched. -/
def turn : Control → Bool → UInt64 → UInt64
  | icache, on, word => withBits word CacheControl.icache on
  | dcache, on, word => withBits word CacheControl.dcache on
  | iprefetch, on, word => withBits word CacheControl.iprefetch on
  | dprefetch, on, word => withBits word CacheControl.dprefetch on
  | nonBlocking, on, word => withBits word MiscControl.nonBlocking on
  | writeAround, on, word => withWriteAround word on

/-- What has to follow the register write. -/
def aftermath : Control → Bool → List Event
  | icache, false => [.fence]
  | dcache, false => [.csrWrite .mcctlCommand CacheCommand.flushAll]
  | _, _ => []

/-- The events that switch the control. -/
def events (control : Control) (on : Bool) (bank : CsrFile) : List Event :=
  .csrRead control.register (bank.get control.register) ::
    .csrWrite control.register (control.turn on (bank.get control.register)) ::
      control.aftermath on

/-! ### Runs -/

theorem runs_drive (control : Control) (on : Bool) (bank : CsrFile) :
    Runs (control.drive on) bank (control.events on bank) (.ok ()) := by
  cases control with
  | icache =>
    cases on with
    | true => exact (runs_switchBits _ _ _ _).bind (runs_pure _ _)
    | false => exact (runs_switchBits _ _ _ _).bind (runs_fence _)
  | dcache =>
    cases on with
    | true => exact (runs_switchBits _ _ _ _).bind (runs_pure _ _)
    | false => exact (runs_switchBits _ _ _ _).bind (runs_csrWrite _ _ _)
  | iprefetch => exact runs_switchBits _ _ _ _
  | dprefetch => exact runs_switchBits _ _ _ _
  | nonBlocking => exact runs_switchBits _ _ _ _
  | writeAround => exact (runs_csrRead _ _).bind_cons (runs_csrWrite _ _ _)

theorem runs_switch (control : Control) (on : Bool) (bank : CsrFile) :
    ∃ text, Runs (control.switch on) bank (control.events on bank ++ [.log .debug text])
      (.ok ()) :=
  ⟨_, (control.runs_drive on bank).bind (runs_log _ _ _)⟩

/-! ### Bits that a control owns -/

/-- The value that switching the control gives a bit of its register; none if it keeps the bit. -/
def ruling (control : Control) (on : Bool) (i : Nat) : Option Bool :=
  match control with
  | icache => if i = 0 then some on else none
  | dcache => if i = 1 then some on else none
  | iprefetch => if i = 9 then some on else none
  | dprefetch => if i = 10 then some on else none
  | nonBlocking => if i = 8 then some on else none
  | writeAround => if i = 13 then some on else if i = 14 then some false else none

/-- **Switching a control changes the bits that it owns, and no others.** -/
theorem getLsbD_turn (control : Control) (on : Bool) (word : UInt64) {i : Nat} (hi : i < 64) :
    (control.turn on word).toBitVec.getLsbD i =
      (control.ruling on i).getD (word.toBitVec.getLsbD i) := by
  -- a control with one bit
  have hbit {bits : UInt64} (k : Nat) (hbits : bits.toBitVec = BitVec.twoPow 64 k)
      (hruling : ∀ j, control.ruling on j = if j = k then some on else none)
      (hturn : control.turn on word = withBits word bits on) :
      (control.turn on word).toBitVec.getLsbD i =
        (control.ruling on i).getD (word.toBitVec.getLsbD i) := by
    rw [hturn, hruling, getLsbD_withBits_twoPow hbits word on hi]
    split <;> rfl
  cases control with
  | icache => exact hbit 0 (by decide) (fun _ ↦ rfl) rfl
  | dcache => exact hbit 1 (by decide) (fun _ ↦ rfl) rfl
  | iprefetch => exact hbit 9 (by decide) (fun _ ↦ rfl) rfl
  | dprefetch => exact hbit 10 (by decide) (fun _ ↦ rfl) rfl
  | nonBlocking => exact hbit 8 (by decide) (fun _ ↦ rfl) rfl
  | writeAround =>
    rw [turn, getLsbD_withWriteAround word on hi, ruling]
    split
    · rfl
    · split <;> rfl

/-- The control that owns a bit. -/
def owner? : Nat → Option Control
  | 0 => some icache
  | 1 => some dcache
  | 8 => some nonBlocking
  | 9 => some iprefetch
  | 10 => some dprefetch
  | 13 | 14 => some writeAround
  | _ => none

/-- A control changes no bit but its own. -/
theorem owner?_of_ruling {control : Control} {on b : Bool} {i : Nat}
    (h : control.ruling on i = some b) : owner? i = some control := by
  have hbit {k : Nat} (h : (if i = k then some on else none) = some b) : i = k :=
    (Option.ite_none_right_eq_some.1 h).1
  cases control with
  | icache => exact hbit h ▸ rfl
  | dcache => exact hbit h ▸ rfl
  | iprefetch => exact hbit h ▸ rfl
  | dprefetch => exact hbit h ▸ rfl
  | nonBlocking => exact hbit h ▸ rfl
  | writeAround =>
    rw [ruling] at h
    split at h
    · next h13 => exact h13 ▸ rfl
    · exact (Option.ite_none_right_eq_some.1 h).1 ▸ rfl

/-! ### Switching several controls -/

variable (control : Control) (on : Bool) (word : UInt64)

private theorem eq_of_getLsbD {v w : UInt64}
    (h : ∀ i < 64, v.toBitVec.getLsbD i = w.toBitVec.getLsbD i) : v = w :=
  UInt64.toBitVec_inj.1 (BitVec.eq_of_getLsbD_eq h)

theorem turn_turn : control.turn on (control.turn on word) = control.turn on word := by
  refine eq_of_getLsbD fun i hi ↦ ?_
  rw [getLsbD_turn _ _ _ hi, getLsbD_turn _ _ _ hi]
  cases control.ruling on i <;> rfl

theorem turn_comm {control control' : Control} (hne : control ≠ control') (on on' : Bool) :
    control.turn on (control'.turn on' word) = control'.turn on' (control.turn on word) := by
  refine eq_of_getLsbD fun i hi ↦ ?_
  simp only [getLsbD_turn _ _ _ hi]
  rcases h : control.ruling on i with - | b
  · rfl
  · rcases h' : control'.ruling on' i with - | b'
    · rfl
    · -- the bit would have two owners
      exact absurd (Option.some.inj ((owner?_of_ruling h).symm.trans (owner?_of_ruling h'))) hne

/-- What switching the control leaves in a register that held a word. -/
def leave (csr : Csr) : UInt64 :=
  if csr = control.register then control.turn on word
  else if csr = .mcctlCommand ∧ control = dcache ∧ on = false then CacheCommand.flushAll
  else word

theorem mcctlCommand_ne_register : .mcctlCommand ≠ control.register := by
  cases control <;> decide

theorem get_replay_aftermath (bank : CsrFile) (csr : Csr) :
    (bank.replay (control.aftermath on)).get csr =
      if csr = .mcctlCommand ∧ control = dcache ∧ on = false then CacheCommand.flushAll
      else bank.get csr := by
  cases control with
  | icache => cases on <;> simp [aftermath, CsrFile.react]
  | dcache => cases on <;> simp [aftermath, CsrFile.react, CsrFile.get_set]
  | _ => simp [aftermath]

theorem get_replay_events (bank : CsrFile) (csr : Csr) :
    (bank.replay (control.events on bank)).get csr = control.leave on (bank.get csr) csr := by
  rw [events, CsrFile.replay_cons, CsrFile.replay_cons, get_replay_aftermath, leave]
  by_cases hcsr : csr = control.register
  · rw [hcsr, if_neg fun h ↦ control.mcctlCommand_ne_register h.1.symm, if_pos rfl]
    exact CsrFile.get_set_self _ _ _
  · rw [if_neg hcsr]
    exact congrArg _ (CsrFile.get_set_of_ne hcsr _ _)

theorem leave_leave (csr : Csr) :
    control.leave on (control.leave on word csr) csr = control.leave on word csr := by
  simp only [leave]
  split
  · exact control.turn_turn on word
  · split <;> rfl

theorem leave_comm {control control' : Control} (hne : control ≠ control') (on on' : Bool)
    (csr : Csr) : control.leave on (control'.leave on' word csr) csr =
      control'.leave on' (control.leave on word csr) csr := by
  by_cases h : csr = control.register
  · by_cases h' : csr = control'.register
    · simp only [leave, if_pos h, if_pos h', turn_comm word hne]
    · have hcsr : csr ≠ .mcctlCommand := fun heq ↦ control.mcctlCommand_ne_register (heq ▸ h)
      simp only [leave, if_pos h, if_neg h', hcsr, false_and, if_false]
  · by_cases h' : csr = control'.register
    · have hcsr : csr ≠ .mcctlCommand := fun heq ↦ control'.mcctlCommand_ne_register (heq ▸ h')
      simp only [leave, if_neg h, if_pos h', hcsr, false_and, if_false]
    · -- only the cache command is left, and it is the same for both
      simp only [leave, if_neg h, if_neg h']
      split <;> split <;> rfl

end Control

end BringUp.Vendor
