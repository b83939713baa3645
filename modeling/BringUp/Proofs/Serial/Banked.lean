import BringUp.Proofs.Machine.Alike
import BringUp.Proofs.Serial.Contents
import BringUp.Proofs.Serial.Sequence

/-!
# Two registers behind one address

On hardware the rate and the duty are two registers, and a bit of the extended mode tells which of
them a write to their shared place goes to. `Banked` states that of a device, whatever else it does,
with the contents of the three registers as a view of what happened to it. Plain memory keeps only
what was written last in the shared place, so what it shows says nothing here.

Bringing a controller up reads the mode that it finds, takes the bit away, and only then writes the
divisor. So the divisor reaches the rate register and the duty the duty register, whichever of them
an earlier attempt or a loader had left selected (`Banked.rate_of_bringUp`).
-/

namespace BringUp.Serial

open Firmware

/-! ### The registers -/

/-- What is in the extended mode, and in the two registers that share a place. -/
structure RateRegisters where
  /-- Extended mode. -/
  semr : UInt8
  /-- Bit rate. -/
  brr : UInt8
  /-- Modulation duty. -/
  mddr : UInt8
  deriving Repr, DecidableEq

/-- What a write at an offset makes of them: one to the shared place goes to the duty while it is
selected, and to the rate otherwise. -/
def RateRegisters.written (r : RateRegisters) (offset : UInt64) (value : UInt8) : RateRegisters :=
  if offset = Offset.semr then { r with semr := value }
  else if offset = Offset.brr then
    if r.semr &&& Semr.mddrs.toUInt8 = 0 then { r with brr := value } else { r with mddr := value }
  else r

/-- What programming a line makes of them. -/
def Line.program (line : Line) (r : RateRegisters) : RateRegisters :=
  if line.modulated then ⟨r.semr ||| Semr.modulation.toUInt8, line.divisor, line.duty⟩
  else ⟨r.semr &&& ~~~Semr.modulation.toUInt8, line.divisor, r.mddr⟩

namespace RateRegisters

variable (r : RateRegisters) (mode value : UInt8)

/-- With modulation off, the rate is written. -/
theorem written_plain :
    (r.written Offset.semr (mode &&& ~~~Semr.modulation.toUInt8)).written Offset.brr value =
      { r with semr := mode &&& ~~~Semr.modulation.toUInt8, brr := value } := by
  have hoff : (mode &&& ~~~Semr.modulation.toUInt8) &&& Semr.mddrs.toUInt8 = 0 := by
    rw [UInt8.and_assoc]
    exact UInt8.and_zero
  rw [written, if_pos rfl, written, if_neg (by decide), if_pos rfl, if_pos hoff]

/-- With modulation on, the duty is. -/
theorem written_modulated :
    (r.written Offset.semr (mode ||| Semr.modulation.toUInt8)).written Offset.brr value =
      { r with semr := mode ||| Semr.modulation.toUInt8, mddr := value } := by
  have hon : (mode ||| Semr.modulation.toUInt8) &&& Semr.mddrs.toUInt8 ≠ 0 := fun h ↦ by
    have hbit := congrArg (fun b : UInt8 ↦ b.toBitVec.getLsbD 4) h
    simp [Semr.modulation, Semr.mddrs, Semr.brme] at hbit
  rw [written, if_pos rfl, written, if_neg (by decide), if_pos rfl, if_neg hon]

end RateRegisters

/-! ### Devices that have them -/

/-- A device with a controller's register block at `base` in which rate and duty share a place. Of
the accesses to the block only writes change the three registers, and a read of the mode gives it. -/
structure Banked (base : UInt64) (d : Device) where
  /-- The registers, after the bus accesses that were made and with the memory that they left. -/
  view : List Event → Memory → RateRegisters
  /-- Reading registers of the block changes none of the three. -/
  read : ∀ {trace : Trace} {offset : UInt64} {earlier : Nat} {mem mem' : Memory},
    offset ∈ Offset.all → d.onRead trace (base + offset) earlier mem = some mem' →
      view (trace.toList.filter Event.isBus ++ [.busRead (layout.width offset) (base + offset)
        (mem'.load (base + offset) (layout.width offset))]) mem' =
          view (trace.toList.filter Event.isBus) mem
  /-- Reading the mode gives the mode. -/
  shows : ∀ {trace : Trace} {earlier : Nat} {mem mem' : Memory},
    d.onRead trace (base + Offset.semr) earlier mem = some mem' →
      mem'.load (base + Offset.semr) .byte =
        (view (trace.toList.filter Event.isBus) mem).semr.toUInt32
  /-- Writing them changes the one that is selected. -/
  write : ∀ {trace : Trace} {offset : UInt64} {value : UInt32} {mem mem' : Memory},
    offset ∈ Offset.all →
    d.onWrite trace (layout.width offset) (base + offset) value mem = some mem' →
      view (trace.toList.filter Event.isBus ++
        [.busWrite (layout.width offset) (base + offset) value]) mem' =
          (view (trace.toList.filter Event.isBus) mem).written offset value.toUInt8

namespace Banked

variable {base : UInt64} {d : Device} (bank : Banked base d) {α β : Type} {x : Firmware α}
  {y : α → Firmware β} {f g : RateRegisters → RateRegisters} {m m' : Machine}

/-- The registers of a machine. -/
def registers (m : Machine) : RateRegisters :=
  bank.view m.busTrace m.memory

/-- On a machine with the device, if the action ends, `f` made the registers. -/
def Makes (f : RateRegisters → RateRegisters) (x : Firmware α) : Prop :=
  ∀ m a m', m.device = d → x m = .ok a m' →
    m'.device = d ∧ bank.registers m' = f (bank.registers m)

/-- Clock, reset and pins leave the registers alone. -/
structure Apart (power : Power) (routePins : Firmware Unit) : Prop where
  /-- Turning the clock on. -/
  clock : bank.Makes id power.startClock
  /-- Releasing the reset. -/
  reset : bank.Makes id power.releaseReset
  /-- Routing the pins. -/
  pins : bank.Makes id routePins

variable {bank}

namespace Makes

theorem bind (hx : bank.Makes f x) (hy : ∀ a, bank.Makes g (y a)) :
    bank.Makes (fun r ↦ g (f r)) (x >>= y) := by
  intro m b m' hdevice h
  obtain ⟨a, m₁, hfirst, hrest⟩ := bind_eq_ok_iff.1 h
  obtain ⟨hdevice₁, hf⟩ := hx m a m₁ hdevice hfirst
  obtain ⟨hdevice', hg⟩ := hy a m₁ b m' hdevice₁ hrest
  exact ⟨hdevice', by rw [hg, hf]⟩

/-- What comes after may leave them alone. -/
theorem bind_id (hx : bank.Makes f x) (hy : ∀ a, bank.Makes id (y a)) : bank.Makes f (x >>= y) :=
  hx.bind hy

theorem ite {c : Prop} [Decidable c] {x' : Firmware α} (hx : bank.Makes f x)
    (hx' : bank.Makes g x') :
    bank.Makes (fun r ↦ if c then f r else g r) (if c then x else x') := by
  split
  · exact hx
  · exact hx'

/-- Time makes no difference to the registers. -/
theorem of_alike (h : ∀ {m a m'}, x m = .ok a m' → Alike m.device m m') : bank.Makes id x := by
  intro m a m' hdevice hrun
  have halike := h hrun
  refine ⟨halike.device_right.trans hdevice, ?_⟩
  rw [registers, ← halike.busTrace_eq, ← halike.memory_eq]
  rfl

theorem pure (a : α) : bank.Makes id (pure a : Firmware α) :=
  of_alike fun h ↦ by
    cases h
    exact .refl _

theorem log (level : Level) (text : String) : bank.Makes id (log level text) :=
  of_alike fun h ↦ by
    cases h
    exact (Alike.refl _).record_right rfl

theorem delay (micros : UInt64) : bank.Makes id (delay micros) :=
  of_alike alike_of_delay

end Makes

section Registers

variable {ctrl : Controller} {offset : UInt64} {value v : UInt32} (bank : Banked ctrl.line.base d)

theorem registers_of_read (hoffset : offset ∈ Offset.all) (hdevice : m.device = d)
    (h : (ctrl.block.read offset : Firmware UInt32) m = .ok v m') :
    m'.device = d ∧ bank.registers m' = bank.registers m := by
  obtain ⟨-, -, memory, hmemory, -, rfl⟩ := busRead_eq_ok_iff.1 (Block.busRead_of_read h)
  rw [hdevice] at hmemory
  refine ⟨hdevice, ?_⟩
  rw [registers, Machine.busTrace, filter_isBus_push]
  exact bank.read hoffset hmemory

theorem makes_read (hoffset : offset ∈ Offset.all) :
    bank.Makes id (ctrl.block.read offset : Firmware UInt32) :=
  fun _ _ _ hdevice h ↦ bank.registers_of_read hoffset hdevice h

/-- What follows a reading of the mode makes of the registers what it makes of them for their
mode. -/
theorem makes_mode_bind {y : UInt32 → Firmware β} {f : UInt8 → RateRegisters → RateRegisters}
    (hy : ∀ mode : UInt8, bank.Makes (f mode) (y mode.toUInt32)) :
    bank.Makes (fun r ↦ f r.semr r) ((ctrl.block.read Offset.semr : Firmware UInt32) >>= y) := by
  intro m a m' hdevice h
  obtain ⟨v, m₁, hread, hrest⟩ := bind_eq_ok_iff.1 h
  obtain ⟨hdevice₁, hsame⟩ := bank.registers_of_read (by decide) hdevice hread
  have hv : v = (bank.registers m).semr.toUInt32 := by
    obtain ⟨-, -, memory, hmemory, rfl, -⟩ := busRead_eq_ok_iff.1 (Block.busRead_of_read hread)
    rw [hdevice] at hmemory
    exact bank.shows hmemory
  rw [hv] at hrest
  obtain ⟨hdevice', hf⟩ := hy _ m₁ a m' hdevice₁ hrest
  exact ⟨hdevice', by rw [hf, hsame]⟩

theorem makes_write (hoffset : offset ∈ Offset.all) :
    bank.Makes (fun r ↦ r.written offset value.toUInt8)
      (ctrl.block.write offset value : Firmware Unit) := by
  intro m _ m' hdevice h
  obtain ⟨-, memory, hmemory, rfl⟩ := busWrite_eq_ok_iff.1 (Block.busWrite_of_write h)
  rw [hdevice] at hmemory
  refine ⟨hdevice, ?_⟩
  have hwritten := bank.write hoffset hmemory
  rw [Width.toUInt8_truncate] at hwritten
  rw [registers, Machine.busTrace, filter_isBus_push]
  exact hwritten

/-- A write to another place leaves them as they are. -/
theorem makes_write_beside
    (hplace : offset ∈ Offset.all ∧ offset ≠ Offset.semr ∧ offset ≠ Offset.brr) :
    bank.Makes id (ctrl.block.write offset value : Firmware Unit) := by
  obtain ⟨hoffset, hsemr, hbrr⟩ := hplace
  intro m _ m' hdevice h
  obtain ⟨hdevice', hwritten⟩ := bank.makes_write hoffset m _ m' hdevice h
  exact ⟨hdevice', hwritten.trans ((if_neg hsemr).trans (if_neg hbrr))⟩

/-! ### Stages -/

variable {power : Power} {routePins : Firmware Unit} {ctrl' : Controller}

theorem makes_quiesce (hapart : bank.Apart power routePins) :
    bank.Makes id (ctrl.quiesce power) :=
  .bind hapart.clock fun _ ↦ .bind hapart.reset fun _ ↦
    .bind (bank.makes_write_beside (by decide)) fun _ ↦ bank.makes_write_beside (by decide)

theorem makes_frame : bank.Makes id ctrl.frame :=
  .bind (bank.makes_read (by decide)) fun _ ↦
    .bind (bank.makes_write_beside (by decide)) fun _ ↦ .bind (bank.makes_read (by decide)) fun _ ↦
      .bind (bank.makes_write_beside (by decide)) fun _ ↦
        .bind (bank.makes_write_beside (by decide)) fun _ ↦ bank.makes_write_beside (by decide)

/-- **Programming the rate programs both registers, whichever was selected before.** -/
theorem makes_setRate : bank.Makes ctrl.line.program ctrl.setRate := by
  -- write by write, with the mode that was found; the selection has to be followed through them
  have hsteps : bank.Makes _ ctrl.setRate := bank.makes_mode_bind fun mode ↦
    .bind (bank.makes_write (by decide)) fun _ ↦ .bind (bank.makes_write (by decide)) fun _ ↦
      .ite (.bind (bank.makes_write (by decide)) fun _ ↦
        .bind (bank.makes_write (by decide)) fun _ ↦ .log _ _) (.log _ _)
  intro m a m' hdevice h
  obtain ⟨hdevice', hregisters⟩ := hsteps m a m' hdevice h
  refine ⟨hdevice', hregisters.trans ?_⟩
  generalize bank.registers m = r
  have hplain : (r.semr.toUInt32 &&& ~~~Semr.modulation).toUInt8 =
      r.semr &&& ~~~Semr.modulation.toUInt8 := by simp
  have hmodulated : (r.semr.toUInt32 &&& ~~~Semr.modulation ||| Semr.modulation).toUInt8 =
      r.semr ||| Semr.modulation.toUInt8 := by
    rw [and_not_or_self]
    simp
  rw [Line.program]
  cases ctrl.line.modulated with
  | true =>
    simp only [if_true, id, hplain, hmodulated, UInt8.toUInt8_toUInt32]
    rw [RateRegisters.written_plain, RateRegisters.written_modulated]
  | false =>
    simp only [Bool.false_eq_true, if_false, id, hplain, UInt8.toUInt8_toUInt32]
    rw [RateRegisters.written_plain]

theorem makes_enable (hpins : bank.Makes id routePins) :
    bank.Makes ctrl.line.program (ctrl.enable routePins) :=
  .bind_id bank.makes_setRate fun _ ↦ .bind (.delay _) fun _ ↦
    .bind (bank.makes_write_beside (by decide)) fun _ ↦
    .bind hpins fun _ ↦ bank.makes_write_beside (by decide)

/-! ### Attempts -/

/-- **An attempt that succeeds has programmed the registers, whatever they held.** The divisor is in
the rate register. With modulation, the duty is in the duty register and the two bits of the mode
are set; without, the duty register is as before and the two bits are clear. The other bits of the
mode are as before. -/
theorem rate_of_bringUp (hapart : bank.Apart power routePins) (hdevice : m.device = d)
    (h : ctrl.bringUp power routePins m = .ok (.ok (), ctrl') m') :
    (bank.registers m').brr = ctrl.line.divisor ∧
    (ctrl.line.modulated = true → (bank.registers m').mddr = ctrl.line.duty ∧
      (bank.registers m').semr = (bank.registers m).semr ||| 0x30) ∧
    (ctrl.line.modulated = false → (bank.registers m').mddr = (bank.registers m).mddr ∧
      (bank.registers m').semr = (bank.registers m).semr &&& ~~~0x30) ∧
    (bank.registers m').semr &&& ~~~0x30 = (bank.registers m).semr &&& ~~~0x30 := by
  have hne : ctrl.phase ≠ .enabled := by
    intro hup
    rw [Controller.bringUp, if_pos hup] at h
    cases h
  obtain ⟨-, m₁, m₂, m₃, hquiesce, hframe, henable, hannounce⟩ :=
    Controller.stages_of_bringUp_eq_ok hne h
  obtain ⟨hdevice₁, h₁⟩ := bank.makes_quiesce hapart m _ m₁ hdevice hquiesce
  obtain ⟨hdevice₂, h₂⟩ := bank.makes_frame m₁ _ m₂ hdevice₁ hframe
  obtain ⟨hdevice₃, h₃⟩ := bank.makes_enable hapart.pins m₂ _ m₃ hdevice₂ henable
  have hreport : bank.Makes id ctrl.announce := .log _ _
  obtain ⟨-, h₄⟩ := hreport m₃ _ m' hdevice₃ hannounce
  have hall : bank.registers m' = ctrl.line.program (bank.registers m) := by
    rw [h₄, h₃, h₂, h₁]
    rfl
  rw [hall, Line.program]
  cases ctrl.line.modulated with
  | true =>
    exact ⟨rfl, fun _ ↦ ⟨rfl, rfl⟩, fun hoff ↦ Bool.noConfusion hoff, byte_or_and_not_self _ _⟩
  | false =>
    refine ⟨rfl, fun hon ↦ Bool.noConfusion hon, fun _ ↦ ⟨rfl, rfl⟩, ?_⟩
    show (bank.registers m).semr &&& ~~~0x30 &&& ~~~0x30 = _
    rw [UInt8.and_assoc, UInt8.and_self]

end Registers

end Banked

/-! ### Memory with a duty register

Plain memory, but for a write to the shared place while the duty is selected: it goes to the byte
right behind the block.
-/

/-- Memory in which the duty register of the block at `base` is kept behind it. -/
def bankedMemory (base : UInt64) : Device where
  onRead _ _ _ mem := some mem
  onWrite _ w address value mem :=
    if address = base + Offset.brr ∧
        mem.byte (base + Offset.semr) &&& Semr.mddrs.toUInt8 ≠ 0 then
      some (mem.store (base + 0x18) (bytesOf w.bytes value))
    else mem.put? address w value

/-- The three registers in it. -/
def registersIn (base : UInt64) (mem : Memory) : RateRegisters :=
  ⟨mem.byte (base + Offset.semr), mem.byte (base + Offset.brr), mem.byte (base + 0x18)⟩

theorem registersIn_store (base start : UInt64) (mem : Memory) (bs : List UInt8) :
    registersIn base (mem.store (base + start) bs) =
      ⟨put start bs Offset.semr (registersIn base mem).semr,
        put start bs Offset.brr (registersIn base mem).brr,
        put start bs 0x18 (registersIn base mem).mddr⟩ := by
  simp only [registersIn, Memory.byte_store_add]

/-- A store to a register of the block does not reach the byte behind it. -/
theorem registersIn_store_register {base offset : UInt64} {mem : Memory} (value : UInt32)
    (h : offset ∈ Offset.all) :
    registersIn base (mem.store (base + offset) (bytesOf (layout.width offset).bytes value)) =
      if offset = Offset.semr then { registersIn base mem with semr := value.toUInt8 }
      else if offset = Offset.brr then { registersIn base mem with brr := value.toUInt8 }
      else registersIn base mem := by
  rw [registersIn_store]
  simp only [Offset.all, List.mem_cons, List.not_mem_nil, or_false] at h
  rcases h with rfl | rfl | rfl | rfl | rfl | rfl | rfl | rfl | rfl | rfl | rfl | rfl <;> rfl

theorem responds_bankedMemory (base : UInt64) : (bankedMemory base).Responds where
  read _ _ _ mem := ⟨mem, rfl⟩
  write trace w address value mem hfits := by
    by_cases hduty : address = base + Offset.brr ∧
        mem.byte (base + Offset.semr) &&& Semr.mddrs.toUInt8 ≠ 0
    · exact ⟨_, if_pos hduty⟩
    · exact ⟨_, (if_neg hduty).trans (if_pos hfits)⟩

/-- It has rate and duty behind one address. -/
def bankedMemory.banked (base : UInt64) : Banked base (bankedMemory base) where
  view _ mem := registersIn base mem
  read _ h := by
    cases h
    rfl
  shows h := by
    cases h
    exact Memory.load_byte _ _
  write := by
    intro trace offset value mem mem' hoffset h
    simp only [bankedMemory, UInt64.add_right_inj] at h
    split at h
    · next hduty =>
      obtain ⟨rfl, hselected⟩ := hduty
      have hselected : (registersIn base mem).semr &&& Semr.mddrs.toUInt8 ≠ 0 := hselected
      cases h
      rw [registersIn_store, RateRegisters.written, if_neg (by decide), if_pos rfl,
        if_neg hselected]
      rfl
    · next hrate =>
      unfold Memory.put? at h
      split at h
      · cases h
        rw [registersIn_store_register value hoffset, RateRegisters.written]
        by_cases hbrr : offset = Offset.brr
        · have hplain : (registersIn base mem).semr &&& Semr.mddrs.toUInt8 = 0 :=
            Decidable.not_not.1 fun hselected ↦ hrate ⟨hbrr, hselected⟩
          rw [if_pos hplain]
        · rw [if_neg hbrr, if_neg hbrr]
      · cases h

section UsedConsole

open Controller

/-- With clock, reset and pins in place, a controller that nothing holds up comes up. -/
theorem bringUp_ends_in_place {ctrl : Controller} {m : Machine} (hne : ctrl.phase ≠ .enabled)
    (hspace : ctrl.line.InSpace) (h : ctrl.Unhindered m) :
    ∃ ctrl' m', ctrl.bringUp powerInPlace (pure ()) m = .ok (.ok (), ctrl') m' := by
  obtain ⟨m₁, steps, hprepare, ⟨es, hleads, -⟩, -⟩ | ⟨_, _, _, _, -, -, -, -, hno⟩ :=
    prepare_cases hspace m
  · obtain ⟨m', hswitch, -⟩ | ⟨_, -, -, hno⟩ := switch_cases hspace m₁
    · have hrun : ctrl.inTurn powerInPlace (pure ()) m = .ok () m' := by
        rw [inTurn, bind_of_ok (show powerInPlace.turnOn m = .ok () m from rfl),
          bind_of_ok hprepare]
        exact hswitch
      obtain ⟨ctrl', hbringUp⟩ := exists_bringUp hne (observe_of_ok hrun)
      exact ⟨ctrl', m', hbringUp⟩
    · exact absurd (hleads.device_eq ▸ h.responds) hno
  · exact absurd h hno

/-- The console with all bits of the extended mode set, so that the duty is selected. -/
def bankedConsole : Machine where
  memory := Memory.empty.storeByte (freshConsole.line.base + Offset.semr) 0xFF
  device := bankedMemory freshConsole.line.base
  watchdog := ⟨200, 0, 0, 0⟩

/-- The divisor reaches the rate register all the same. -/
theorem rate_of_bringUp_console : ∃ ctrl' m',
    freshConsole.bringUp powerInPlace (pure ()) bankedConsole = .ok (.ok (), ctrl') m' ∧
    registersIn freshConsole.line.base bankedConsole.memory = ⟨0xFF, 0, 0⟩ ∧
    registersIn freshConsole.line.base m'.memory = ⟨0xFF, 26, freshConsole.line.duty⟩ := by
  have hunhindered : freshConsole.Unhindered bankedConsole :=
    ⟨responds_bankedMemory _, by decide, fun _ ↦ settles_of_winds rfl⟩
  obtain ⟨ctrl', m', hrun⟩ := bringUp_ends_in_place (by decide) (by decide) hunhindered
  have hbefore : registersIn freshConsole.line.base bankedConsole.memory = ⟨0xFF, 0, 0⟩ := by
    simp [registersIn, bankedConsole, Memory.byte_storeByte, Offset.semr, Offset.brr]
  obtain ⟨hrate, hmodulated, -⟩ := (bankedMemory.banked freshConsole.line.base).rate_of_bringUp
    ⟨.pure _, .pure _, .pure _⟩ rfl hrun
  obtain ⟨hduty, hmode⟩ := hmodulated rfl
  have hmode' : (registersIn freshConsole.line.base m'.memory).semr =
      (registersIn freshConsole.line.base bankedConsole.memory).semr ||| 0x30 := hmode
  rw [hbefore] at hmode'
  refine ⟨ctrl', m', hrun, hbefore, ?_⟩
  show RateRegisters.mk _ _ _ = _
  exact congr (congr (congrArg _ hmode') hrate) hduty

end UsedConsole

end BringUp.Serial
