import BringUp.Proofs.Machine.Plain
import BringUp.Proofs.Serial.Ascent

/-!
# What bringing up leaves in the registers

On plain memory, what is in a serial controller's block after each stage of bringing it up, byte by
byte, from what was there before (`makes_quiesce`, `makes_frame`, `makes_setRate`). Two results
matter: with the rate programmed the block is `Line.configured`, and `Line.enabled` once transmitter
and receiver are on. Neither depends on how often the controller was configured before
(`configured_configured`, `enabled_configured`).

The rate is the delicate part. Its register shares a place with the duty, and the extended mode that
tells them apart is changed bit by bit, so that what an earlier attempt left there is read again.
-/

namespace BringUp

open Firmware

/-! ### Values of one byte -/

theorem bytesOf_byte (value : UInt32) :
    bytesOf Width.byte.bytes (Width.byte.truncate value) = [value.toUInt8] := by
  rw [Width.bytes, bytesOf, bytesOf, Width.toUInt8_truncate]

namespace Serial

/-! ### Contents -/

namespace Line

/-- What is made of the extended mode. -/
def modeOf (line : Line) (b : UInt8) : UInt8 :=
  if line.modulated then (b &&& ~~~Semr.modulation.toUInt8) ||| Semr.modulation.toUInt8
  else b &&& ~~~Semr.modulation.toUInt8

/-- What is written last in the place that rate and duty share. -/
def rate (line : Line) : UInt8 :=
  if line.modulated then line.duty else line.divisor

/-- What programming the rate makes of the block. -/
def rated (line : Line) (offset : UInt64) (b : UInt8) : UInt8 :=
  if offset = Offset.semr then line.modeOf b else if offset = Offset.brr then line.rate else b

/-- The bytes that are cleared on the way up: of the mode, the control, the status and FIFO control
registers. -/
def cleared : List UInt64 :=
  [0x00, 0x01, 0x04, 0x05, 0x08, 0x09, 0x0C, 0x0D, 0x12, 0x13]

/-- The block with everything off, its framing set and its rate programmed. -/
def configured (line : Line) (offset : UInt64) (b : UInt8) : UInt8 :=
  if offset ∈ cleared then 0 else line.rated offset b

/-- The block of a controller that is up. -/
def enabled (line : Line) (offset : UInt64) (b : UInt8) : UInt8 :=
  put Offset.scr [0x30, 0] offset (line.configured offset b)

variable (line : Line) (offset : UInt64) (b : UInt8)

theorem modeOf_modeOf : line.modeOf (line.modeOf b) = line.modeOf b := by
  unfold modeOf
  split
  · rw [byte_and_not_or_self, UInt8.or_assoc, UInt8.or_self]
  · rw [UInt8.and_assoc, UInt8.and_self]

theorem rated_rated : line.rated offset (line.rated offset b) = line.rated offset b := by
  unfold rated
  split
  · exact line.modeOf_modeOf b
  · split <;> rfl

/-- Configuring once more changes nothing. -/
theorem configured_configured :
    line.configured offset (line.configured offset b) = line.configured offset b := by
  unfold configured
  split
  · rfl
  · exact line.rated_rated offset b

/-- A controller that was configured before comes up in the same way. -/
theorem enabled_configured :
    line.enabled offset (line.configured offset b) = line.enabled offset b := by
  rw [enabled, configured_configured, enabled]

/-- **The stages up to the FIFOs configure the block.** -/
theorem configured_eq :
    put Offset.fcr [0, 0] offset (line.rated offset (put Offset.smr [0, 0] offset
      (put Offset.scr [0, 0] offset (put Offset.lsr [0, 0] offset (put Offset.fsr [0, 0] offset
        (put Offset.fcr [6, 0] offset (put Offset.scr [0, 0] offset b))))))) =
      line.configured offset b := by
  by_cases h : offset ∈ Offset.brr :: Offset.semr :: cleared
  · -- at each place that is written, the last write counts
    simp only [cleared, List.mem_cons, List.not_mem_nil, or_false] at h
    rcases h with rfl | rfl | rfl | rfl | rfl | rfl | rfl | rfl | rfl | rfl | rfl | rfl <;> rfl
  · simp only [cleared, List.mem_cons, List.not_mem_nil, or_false, not_or] at h
    simp [put, configured, cleared, rated, h, Offset.fcr, Offset.fsr, Offset.lsr, Offset.smr,
      Offset.scr]

end Line

/-! ### Stages -/

/-- Clock, reset and pins leave the registers of a line alone. -/
structure Apart (line : Line) (power : Power) (routePins : Firmware Unit) : Prop where
  /-- Turning the clock on. -/
  clock : LeavesAlone line.base blockSize power.startClock
  /-- Releasing the reset. -/
  reset : LeavesAlone line.base blockSize power.releaseReset
  /-- Routing the pins. -/
  pins : LeavesAlone line.base blockSize routePins

namespace Controller

variable (ctrl : Controller) {power : Power} {routePins : Firmware Unit} {size : Nat}
  {offset : UInt64} {value : UInt32}

theorem makes_read :
    Makes ctrl.line.base size unchanged (ctrl.block.read offset : Firmware UInt32) :=
  Block.makes_read

theorem makes_write {bs : List UInt8}
    (hbytes : bytesOf (layout.width offset).bytes ((layout.width offset).truncate value) = bs) :
    Makes ctrl.line.base size (put offset bs) (ctrl.block.write offset value : Firmware Unit) :=
  Block.makes_write hbytes

theorem makes_quiesce (hapart : Apart ctrl.line power routePins) :
    Makes ctrl.line.base blockSize
      (fun offset b ↦ put Offset.fcr [6, 0] offset (put Offset.scr [0, 0] offset b))
      (ctrl.quiesce power) :=
  .congr (.bind hapart.clock.makes fun _ ↦ .bind hapart.reset.makes fun _ ↦
    .bind (ctrl.makes_write rfl) fun _ ↦ ctrl.makes_write rfl) fun _ _ _ ↦ rfl

theorem makes_frame : Makes ctrl.line.base size
    (fun offset b ↦ put Offset.smr [0, 0] offset (put Offset.scr [0, 0] offset
      (put Offset.lsr [0, 0] offset (put Offset.fsr [0, 0] offset b)))) ctrl.frame :=
  .congr (.bind ctrl.makes_read fun _ ↦ .bind (ctrl.makes_write rfl) fun _ ↦
    .bind ctrl.makes_read fun _ ↦ .bind (ctrl.makes_write rfl) fun _ ↦
      .bind (ctrl.makes_write rfl) fun _ ↦ ctrl.makes_write rfl) fun _ _ _ ↦ rfl

/-- Programming the rate reads the extended mode, and what it writes there in the end is made of
what it read. -/
theorem makes_setRate : Makes ctrl.line.base size ctrl.line.rated ctrl.setRate := by
  intro m _ m' hplain h
  have hbecomes : m.Becomes ctrl.block.base size _ m' :=
    Block.becomes_of_read_bind h hplain fun old ↦
      .bind (ctrl.makes_write (bytesOf_byte _)) fun _ ↦ .bind (ctrl.makes_write (bytesOf_byte _))
        fun _ ↦ .ite (.bind (ctrl.makes_write (bytesOf_byte _)) fun _ ↦
          .bind (ctrl.makes_write (bytesOf_byte _)) fun _ ↦ LeavesAlone.makes (.log _ _))
            (LeavesAlone.makes (.log _ _))
  refine ⟨hbecomes.device_eq, fun offset hoffset ↦ (hbecomes.byte_eq offset hoffset).trans ?_⟩
  have hold : m.memory.load (ctrl.block.base + Offset.semr) (ctrl.block.layout.width Offset.semr) =
      (m.memory.byte (ctrl.line.base + Offset.semr)).toUInt32 := Memory.load_byte _ _
  rw [hold]
  by_cases hsemr : offset = Offset.semr
  · rw [hsemr]
    cases hmodulated : ctrl.line.modulated
    · simp [put, unchanged, Line.rated, Line.modeOf, Offset.semr, Offset.brr, hmodulated]
    · simp [put, unchanged, Line.rated, Line.modeOf, Offset.semr, Offset.brr, hmodulated]
  · by_cases hbrr : offset = Offset.brr
    · simp [put, unchanged, Line.rated, Line.rate, Offset.semr, Offset.brr, hbrr]
    · simp [put, unchanged, Line.rated, hsemr, hbrr, block]

/-! ### Attempts -/

variable {ctrl} {ctrl' : Controller} {cause : Failure} {m m' : Machine}

/-- **An attempt that gets to the pins has configured the block.** -/
theorem becomes_configured {m₁ m₂ m₃ m₄ : Machine}
    (hapart : Apart ctrl.line power routePins) (hplain : m.device = .plain)
    (hquiesce : ctrl.quiesce power m = .ok () m₁) (hframe : ctrl.frame m₁ = .ok () m₂)
    (hrate : ctrl.setRate m₂ = .ok () m₃) (hdelay : delay ctrl.line.settleMicros m₃ = .ok () m₄)
    (hwrite : (ctrl.block.write Offset.fcr 0 : Firmware Unit) m₄ = .ok () m') :
    m.Becomes ctrl.line.base blockSize ctrl.line.configured m' := by
  have h₁ := ctrl.makes_quiesce hapart m _ m₁ hplain hquiesce
  have h₂ := h₁.trans (ctrl.makes_frame m₁ _ m₂ h₁.device_eq hframe)
  have h₃ := h₂.trans (ctrl.makes_setRate m₂ _ m₃ h₂.device_eq hrate)
  have h₄ := h₃.trans ((LeavesAlone.delay _).makes m₃ _ m₄ h₃.device_eq hdelay)
  have h₅ := h₄.trans (ctrl.makes_write rfl m₄ _ m' h₄.device_eq hwrite)
  exact h₅.congr fun offset b _ ↦ ctrl.line.configured_eq offset b

/-- **An attempt that succeeds brings the block up.** -/
theorem becomes_enabled (hne : ctrl.phase ≠ .enabled)
    (hapart : Apart ctrl.line power routePins) (hplain : m.device = .plain)
    (h : ctrl.bringUp power routePins m = .ok (.ok (), ctrl') m') :
    m.Becomes ctrl.line.base blockSize ctrl.line.enabled m' := by
  obtain ⟨-, m₁, m₂, m₈, hquiesce, hframe, henable, hannounce⟩ := stages_of_bringUp_eq_ok hne h
  obtain ⟨_, m₃, hrate, henable⟩ := bind_eq_ok_iff.1 henable
  obtain ⟨_, m₄, hdelay, henable⟩ := bind_eq_ok_iff.1 henable
  obtain ⟨_, m₅, hwrite, henable⟩ := bind_eq_ok_iff.1 henable
  obtain ⟨_, m₆, hroute, hswitch⟩ := bind_eq_ok_iff.1 henable
  have h₅ := becomes_configured hapart hplain hquiesce hframe hrate hdelay hwrite
  have h₆ := h₅.trans (hapart.pins.makes m₅ _ m₆ h₅.device_eq hroute)
  have h₇ := h₆.trans (ctrl.makes_write rfl m₆ _ m₈ h₆.device_eq hswitch)
  exact h₇.trans ((LeavesAlone.log _ _).makes m₈ _ m' h₇.device_eq hannounce)

end Controller

end Serial

end BringUp
