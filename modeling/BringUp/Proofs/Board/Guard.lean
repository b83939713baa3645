import Mathlib.Algebra.Group.Nat.Defs
import BringUp.Proofs.Board.Surroundings
import BringUp.Proofs.Machine.Poll

/-!
# Guarded handshakes

A handshake makes one write, which carries the control bit of the channel and its guard bit and no
other bit, and from then on only reads the monitor. It succeeds exactly if the last value read has
the channel's bit as wanted, and fails only with its time run out (`Handshaken`).

Hardware that takes a control bit only with its guard bit (`ControlStep`) therefore has the
channel's bit set afterwards and all other control bits as they were, whatever they were and whether
the monitor followed in time or not (`Handshaken.contents_eq`).
-/

namespace BringUp.Board

open Firmware

namespace ClockGate

/-! ### Bits -/

section Bits

variable {gate : ClockGate} (h : gate.channel.toNat < 16)
include h

/-- The guard bit of the gate's channel. -/
def guard (gate : ClockGate) : UInt32 :=
  0x10000 <<< gate.channel.toUInt32

theorem controlBit_of_lt : controlBit gate.channel = .ok gate.bit := by
  have hlt : gate.channel < 32 := UInt8.lt_iff_toNat_lt.2 (Nat.lt_trans h (by decide))
  exact if_pos hlt

theorem guardBit_of_lt : guardBit gate.channel = .ok gate.guard := by
  have hlt : gate.channel < 32 := UInt8.lt_iff_toNat_lt.2 (Nat.lt_trans h (by decide))
  exact if_pos hlt

theorem toNat_bit : gate.bit.toNat = 2 ^ gate.channel.toNat := by
  have hle : 2 ^ gate.channel.toNat ≤ 2 ^ 15 := Nat.pow_le_pow_right (by decide) (by omega)
  have hmod : gate.channel.toNat % 32 = gate.channel.toNat := Nat.mod_eq_of_lt (by omega)
  rw [bit, UInt32.toNat_shiftLeft, UInt8.toNat_toUInt32, hmod, UInt32.toNat_one,
    Nat.one_shiftLeft]
  exact Nat.mod_eq_of_lt (Nat.lt_of_le_of_lt hle (by decide))

theorem toNat_guard : gate.guard.toNat = 2 ^ (gate.channel.toNat + 16) := by
  have hle : 2 ^ (gate.channel.toNat + 16) ≤ 2 ^ 31 := Nat.pow_le_pow_right (by decide) (by omega)
  have hmod : gate.channel.toNat % 32 = gate.channel.toNat := Nat.mod_eq_of_lt (by omega)
  have hshift : (0x10000 : UInt32).toNat <<< gate.channel.toNat =
      2 ^ (gate.channel.toNat + 16) := by
    rw [show (0x10000 : UInt32).toNat = 2 ^ 16 from rfl, Nat.shiftLeft_eq, ← Nat.pow_add,
      Nat.add_comm]
  rw [guard, UInt32.toNat_shiftLeft, UInt8.toNat_toUInt32, hmod, hshift]
  exact Nat.mod_eq_of_lt (Nat.lt_of_le_of_lt hle (by decide))

/-- Masking with the channel's bit tests it. -/
theorem and_bit_bne_zero (v : UInt32) :
    (v &&& gate.bit != 0) = v.toNat.testBit gate.channel.toNat := by
  have hzero : v &&& gate.bit = 0 ↔ v.toNat.testBit gate.channel.toNat = false := by
    rw [← UInt32.toNat_inj, UInt32.toNat_and, toNat_bit h, UInt32.toNat_zero]
    constructor
    · intro hand
      have hbit := congrArg (Nat.testBit · gate.channel.toNat) hand
      simpa [Nat.testBit_and, Nat.testBit_two_pow] using hbit
    · intro hbit
      refine Nat.eq_of_testBit_eq fun j ↦ ?_
      rw [Nat.testBit_and, Nat.testBit_two_pow, Nat.zero_testBit]
      by_cases hj : gate.channel.toNat = j
      · rw [← hj, hbit, Bool.false_and]
      · rw [decide_eq_false hj, Bool.and_false]
  rw [Bool.eq_iff_iff, bne_iff_ne, ne_eq, hzero, Bool.not_eq_false]

/-- The write carries the control bit and the guard bit. -/
theorem toNat_bit_or_guard :
    (gate.bit ||| gate.guard).toNat = 2 ^ gate.channel.toNat + 2 ^ (gate.channel.toNat + 16) := by
  have hlt : 2 ^ gate.channel.toNat < 2 ^ (gate.channel.toNat + 16) :=
    Nat.pow_lt_pow_right (by decide) (by omega)
  have hsum := Nat.two_pow_add_eq_or_of_lt hlt 1
  rw [Nat.mul_one] at hsum
  rw [UInt32.toNat_or, toNat_bit h, toNat_guard h, Nat.or_comm, ← hsum, Nat.add_comm]

/-- Of the control bits it carries the channel's alone, and of the guard bits too. -/
theorem testBit_bit_or_guard (i : Fin 16) :
    (gate.bit ||| gate.guard).toNat.testBit i.val = decide (i.val = gate.channel.toNat) ∧
      (gate.bit ||| gate.guard).toNat.testBit (i.val + 16) =
        decide (i.val = gate.channel.toNat) := by
  have hi : i.val < 16 := i.isLt
  simp only [UInt32.toNat_or, toNat_bit h, toNat_guard h, Nat.testBit_or, Nat.testBit_two_pow]
  by_cases hchannel : i.val = gate.channel.toNat
  · simp [hchannel]
  · have hlow : gate.channel.toNat ≠ i.val := Ne.symm hchannel
    have hhigh : gate.channel.toNat + 16 ≠ i.val := by omega
    have hhigh' : gate.channel.toNat ≠ i.val + 16 := by omega
    simp [hchannel, hlow, hhigh, hhigh']

end Bits

/-! ### The accesses -/

/-- What an access to a control register or its monitor makes of the control bits. A write changes a
bit if it carries the guard bit, and a reading of the monitor changes none. -/
structure ControlStep (gate : ClockGate) (control monitor : UInt64) (s : Fin 16 → Bool) (e : Event)
    (s' : Fin 16 → Bool) : Prop where
  /-- A write to the control register. -/
  write : ∀ value, e = .busWrite .word (gate.base + control) value → ∀ i : Fin 16,
    s' i = if value.toNat.testBit (i.val + 16) then value.toNat.testBit i.val else s i
  /-- A reading of the monitor. -/
  read : ∀ value, e = .busRead .word (gate.base + monitor) value → s' = s

/-- A handshake was made from the first machine to the second, and ended as `r`. -/
structure Handshaken (gate : ClockGate) (control monitor : UInt64) (want : Bool) (what : String)
    (m : Machine) (r : Except Failure Unit) (m' : Machine) : Prop where
  /-- One write, of control bit and guard bit, and then readings of the monitor only, up to the
  first one that shows the channel's bit as wanted or until the time has run out. -/
  accesses : ∃ (written : UInt32) (early : List UInt32) (last : UInt32),
    m'.busTrace = m.busTrace ++ .busWrite .word (gate.base + control) written ::
      (early ++ [last]).map (.busRead .word (gate.base + monitor)) ∧
    written.toNat = 2 ^ gate.channel.toNat + 2 ^ (gate.channel.toNat + 16) ∧
    (∀ v ∈ early, v.toNat.testBit gate.channel.toNat = !want) ∧
    (r = .ok () ↔ last.toNat.testBit gate.channel.toNat = want) ∧
    (r ≠ .ok () → ∃ limit waited, gate.deadline = .after limit ∧
      r = .error (.timeout what waited) ∧ limit ≤ waited)
  /-- On hardware that takes control bits only with their guard bits, the channel's bit is set and
  all others are as before. -/
  contents_eq : ∀ {d : Device} (regs : Registers d (gate.ControlStep control monitor)),
    m.device = d → ∀ i : Fin 16,
      regs.contents m' i = if i.val = gate.channel.toNat then true else regs.contents m i

variable {gate : ClockGate} {control monitor : UInt64} {want : Bool} {what : String}
  {m m' : Machine} {r : Except Failure Unit}

/-- Readings of the monitor leave the control bits alone. -/
theorem eq_of_run_reads {values : List UInt32} {s s' : Fin 16 → Bool}
    (h : Run (gate.ControlStep control monitor) s
      (values.map (.busRead .word (gate.base + monitor))) s') : s' = s := by
  induction values generalizing s with
  | nil => exact h
  | cons v values ih =>
    obtain ⟨s₁, hstep, hrest⟩ := h
    rw [ih hrest, hstep.read v rfl]

/-- A handshake writes once and then polls the monitor. -/
theorem transacts_of_handshake (hchannel : gate.channel.toNat < 16)
    (h : (gate.handshake control monitor want what).attempt m = .ok r m') :
    ∃ early last, m.Transacts (.busWrite .word (gate.base + control) (gate.bit ||| gate.guard) ::
        (early ++ [last]).map (.busRead .word (gate.base + monitor))) m' ∧
      Block.Polled (fun v ↦ (v &&& gate.bit != 0) == want) gate.deadline what early last r := by
  rw [handshake, controlBit_of_lt hchannel, liftExcept_ok_bind, guardBit_of_lt hchannel,
    liftExcept_ok_bind] at h
  rcases attempt_bind_eq_ok h with ⟨⟨⟩, m₁, hwrite, h⟩ | ⟨cause, -, hwrite⟩
  · rcases attempt_bind_eq_ok h with ⟨r', m₂, hwait, h⟩ | ⟨cause, -, hwait⟩
    · obtain ⟨early, last, hpolls, hpolled⟩ := Block.polled_of_waitUntil hwait
      -- what comes after the wait is a log record at most, and passes the outcome on
      have hend : r' = r ∧ m₂.Transacts [] m' := by
        cases r' with
        | ok _ =>
          cases h
          exact ⟨rfl, .refl _⟩
        | error cause =>
          cases h
          exact ⟨rfl, .of_log (show log .warn _ m₂ = _ from rfl)⟩
      obtain ⟨rfl, hend⟩ := hend
      have hall := (Machine.Transacts.of_write hwrite).trans (hpolls.trans hend)
      rw [List.append_nil] at hall
      exact ⟨early, last, hall, hpolled⟩
    · exact absurd hwait attempt_ne_failure
  · exact absurd hwrite Block.write_ne_failure

/-- So do the two actions that make a handshake and log its success. -/
theorem transacts_of_announced {level : Level} {text : String} (hchannel : gate.channel.toNat < 16)
    (h : (gate.handshake control monitor want what >>= fun _ ↦ log level text).attempt m =
      .ok r m') :
    ∃ early last, m.Transacts (.busWrite .word (gate.base + control) (gate.bit ||| gate.guard) ::
        (early ++ [last]).map (.busRead .word (gate.base + monitor))) m' ∧
      Block.Polled (fun v ↦ (v &&& gate.bit != 0) == want) gate.deadline what early last r := by
  rcases attempt_bind_eq_ok h with ⟨⟨⟩, m₁, hrun, hlog⟩ | ⟨cause, rfl, hrun⟩
  · have hattempt : (gate.handshake control monitor want what).attempt m = .ok (.ok ()) m₁ := by
      rw [attempt, hrun]
    obtain ⟨early, last, hall, hpolled⟩ := transacts_of_handshake hchannel hattempt
    cases hlog
    have hdone := hall.trans (.of_log (show log level text m₁ = _ from rfl))
    rw [List.append_nil] at hdone
    exact ⟨early, last, hdone, hpolled⟩
  · exact transacts_of_handshake hchannel (by rw [attempt, hrun])

theorem handshaken_of_transacts {early : List UInt32} {last : UInt32}
    (hchannel : gate.channel.toNat < 16)
    (hall : m.Transacts (.busWrite .word (gate.base + control) (gate.bit ||| gate.guard) ::
      (early ++ [last]).map (.busRead .word (gate.base + monitor))) m')
    (hpolled : Block.Polled (fun v ↦ (v &&& gate.bit != 0) == want) gate.deadline what early last
      r) : gate.Handshaken control monitor want what m r m' := by
  obtain ⟨hearly, hok, htimeout⟩ := hpolled
  simp only [and_bit_bne_zero hchannel] at hearly hok
  refine ⟨⟨_, early, last, hall.busTrace_eq, toNat_bit_or_guard hchannel, fun v hv ↦ ?_, ?_,
    htimeout⟩, fun regs hdevice i ↦ ?_⟩
  · exact Bool.eq_not_of_ne (beq_eq_false_iff_ne.1 (hearly v hv))
  · rw [hok, beq_iff_eq]
  · obtain ⟨s₁, hstep, hreads⟩ := regs.run hall hdevice
    obtain ⟨hcontrol, hguard⟩ := testBit_bit_or_guard hchannel i
    rw [eq_of_run_reads hreads, hstep.write _ rfl i, hcontrol, hguard]
    by_cases hi : i.val = gate.channel.toNat
    · simp [hi]
    · simp [hi]

/-- **Clock and reset handshakes are guarded, and end neither early nor without cause**, whatever
the device does and however long they may wait. -/
theorem handshakes_guarded (gate : ClockGate) (hchannel : gate.channel.toNat < 16)
    (m m' : Machine) (r : Except Failure Unit) :
    (gate.startClock.attempt m = .ok r m' →
      gate.Handshaken 0x584 0x704 true "scif clock monitor" m r m') ∧
    (gate.releaseReset.attempt m = .ok r m' →
      gate.Handshaken 0x884 0xA04 false "scif reset monitor" m r m') := by
  refine ⟨fun h ↦ ?_, fun h ↦ ?_⟩
  · obtain ⟨early, last, hall, hpolled⟩ := transacts_of_announced hchannel h
    exact handshaken_of_transacts hchannel hall hpolled
  · obtain ⟨early, last, hall, hpolled⟩ := transacts_of_announced hchannel h
    exact handshaken_of_transacts hchannel hall hpolled

/-- A reset that was not seen released in time. -/
theorem releaseReset_of_wait_eq_error {m₁ m₂ : Machine} {cause : Failure}
    (hchannel : gate.channel.toNat < 16)
    (hwrite : (gate.block.writeWithGuard resetControl gate.bit gate.guard : Firmware Unit) m =
      .ok () m₁)
    (hwait : waitUntil gate.deadline "scif reset monitor"
      (gate.followed resetMonitor gate.bit false) m₁ = .error (.failure cause) m₂) :
    gate.releaseReset.attempt m = .ok (.error cause)
      (m₂.record (.log .warn s!"cpg: scif{gate.channel}: {cause.message}")) := by
  have hattempt : (waitUntil gate.deadline "scif reset monitor"
      (gate.followed resetMonitor gate.bit false)).attempt m₁ = .ok (.error cause) m₂ := by
    rw [attempt, hwait]
  have hhandshake : gate.handshake resetControl resetMonitor false "scif reset monitor" m =
      .error (.failure cause)
        (m₂.record (.log .warn s!"cpg: scif{gate.channel}: {cause.message}")) := by
    rw [handshake, controlBit_of_lt hchannel, liftExcept_ok_bind, guardBit_of_lt hchannel,
      liftExcept_ok_bind]
    exact (bind_of_ok hwrite).trans (bind_of_ok hattempt)
  rw [attempt, releaseReset, bind_of_error hhandshake]

/-! ### Memory with guarded control registers

Plain memory, but for the two control registers, which take bits with their guard bits only, and for
the two monitors: the clock is seen as its control register has it from the third look on, and the
reset is never seen released.
-/

/-- A control register after a write: the bits whose guard bits are carried are the ones written. -/
def guardedWord (old value : UInt32) : UInt32 :=
  (old &&& ~~~(value >>> 16)) ||| (value &&& (value >>> 16))

theorem testBit_guardedWord (old value : UInt32) {i : Nat} (hi : i < 16) :
    (guardedWord old value).toNat.testBit i =
      if value.toNat.testBit (i + 16) then value.toNat.testBit i else old.toNat.testBit i := by
  have hlt : i < 32 := Nat.lt_trans hi (by decide)
  have hguard : (value >>> 16).toBitVec.getLsbD i = value.toBitVec.getLsbD (i + 16) := by
    rw [← BitVec.testBit_toNat, UInt32.toNat_toBitVec, UInt32.toNat_shiftRight,
      Nat.testBit_shiftRight, Nat.add_comm, ← BitVec.testBit_toNat]
    rfl
  simp only [← UInt32.toNat_toBitVec, BitVec.testBit_toNat, guardedWord, UInt32.toBitVec_or,
    UInt32.toBitVec_and, UInt32.toBitVec_not, BitVec.getLsbD_or, BitVec.getLsbD_and,
    BitVec.getLsbD_not, hguard, hlt]
  cases value.toBitVec.getLsbD (i + 16) with
  | false => simp
  | true => simp

/-- Memory with the control registers of a clock generator at `base`. -/
def guardedMemory (base : UInt64) : Device where
  onRead _ address earlier mem :=
    if address = base + clockMonitor then
      some (mem.store address
        (bytesOf 4 (if 2 ≤ earlier then mem.load (base + clockControl) .word else 0)))
    else if address = base + resetMonitor then
      some (mem.store address (bytesOf 4 0xFFFF))
    else some mem
  onWrite _ w address value mem :=
    if address = base + clockControl ∨ address = base + resetControl then
      mem.put? address w (guardedWord (mem.load address w) value)
    else mem.put? address w value

/-- The control registers lie apart from the monitors. -/
theorem control_not_meets {control monitor : UInt64}
    (hcontrol : control ∈ [clockControl, resetControl])
    (hmonitor : monitor ∈ [clockMonitor, resetMonitor]) :
    ¬ (Access.read .word control).Meets monitor 4 := by
  simp only [List.mem_cons, List.not_mem_nil, or_false] at hcontrol hmonitor
  rcases hcontrol with rfl | rfl <;> rcases hmonitor with rfl | rfl <;> decide

/-- Looking at a monitor leaves both control registers as they are. -/
theorem load_of_onRead_guardedMemory {base address control : UInt64} {trace : Trace} {earlier : Nat}
    {mem mem' : Memory} (hcontrol : control ∈ [clockControl, resetControl])
    (h : (guardedMemory base).onRead trace address earlier mem = some mem') :
    mem'.load (base + control) .word = mem.load (base + control) .word := by
  have hapart {monitor : UInt64} (hmonitor : monitor ∈ [clockMonitor, resetMonitor])
      (value : UInt32) :
      (mem.store (base + monitor) (bytesOf 4 value)).load (base + control) .word =
        mem.load (base + control) .word :=
    mem.load_store_add .word value base (control_not_meets hcontrol hmonitor)
  simp only [guardedMemory] at h
  split at h
  · next haddress =>
    cases h
    rw [haddress, hapart (by decide)]
  · split at h
    · next haddress =>
      cases h
      rw [haddress, hapart (by decide)]
    · cases h
      rfl

/-- Its control registers take bits with their guard bits only. -/
def guardedMemory.registers (gate : ClockGate) {control : UInt64} (monitor : UInt64)
    (hcontrol : control ∈ [clockControl, resetControl]) :
    Registers (guardedMemory gate.base) (gate.ControlStep control monitor) where
  view _ mem i := (mem.load (gate.base + control) .word).toNat.testBit i.val
  read h := by
    refine ⟨nofun, fun _ _ ↦ ?_⟩
    rw [load_of_onRead_guardedMemory hcontrol h]
  write h := by
    refine ⟨fun value hevent i ↦ ?_, nofun⟩
    obtain ⟨rfl, rfl, rfl⟩ := Event.busWrite.inj hevent
    have hplace : gate.base + control = gate.base + clockControl ∨
        gate.base + control = gate.base + resetControl := by
      simpa only [UInt64.add_right_inj, List.mem_cons, List.not_mem_nil, or_false] using hcontrol
    unfold guardedMemory at h
    simp only [if_pos hplace, Memory.put?] at h
    split at h
    · cases h
      rw [Memory.load_store, ← testBit_guardedWord _ _ i.isLt]
      rfl
    · cases h

/-- Whether the control register of a clock generator has a bit. -/
def controlBitSet (gate : ClockGate) (control : UInt64) (m : Machine) (i : Fin 16) : Bool :=
  (m.memory.load (gate.base + control) .word).toNat.testBit i.val

/-- Channel 3 with 50 microseconds to wait. -/
def channelThree : ClockGate := ⟨0x11010000, 3, .after 50⟩

/-- A machine with that memory, in which some bits of both control registers are set. -/
def guardedBoard : Machine where
  memory := (Memory.empty.store 0x11010584 [0x04, 0xAB]).store 0x11010884 [0xC1]
  device := guardedMemory channelThree.base
  clock := .stepping 0 20
  watchdog := ⟨10, 0, 0, 0⟩

/-- Starting the clock succeeds. -/
theorem exists_startClock_guardedBoard :
    ∃ m, channelThree.startClock.attempt guardedBoard = .ok (.ok ()) m := by
  have hends : channelThree.startClock.attempt.endsWith (fun r _ ↦ r.isOk) guardedBoard = true := by
    cbv
  obtain ⟨cause | ⟨⟩, m, hstart, hok⟩ := endsWith_iff.1 hends
  · cases hok
  · exact ⟨m, hstart⟩

/-- Releasing the reset runs out of time. -/
theorem exists_releaseReset_guardedBoard :
    ∃ cause m, channelThree.releaseReset.attempt guardedBoard = .ok (.error cause) m := by
  have hends : (channelThree.block.writeWithGuard resetControl channelThree.bit channelThree.guard :
      Firmware Unit).endsWith (fun _ ↦ (do
        runsOut 50 (← now) (channelThree.followed resetMonitor channelThree.bit false) (← rounds) :
          Firmware Bool).endsWith fun out _ ↦ out) guardedBoard = true := by
    cbv
  obtain ⟨⟨⟩, m₁, hwrite, hends⟩ := endsWith_iff.1 hends
  obtain ⟨_, m₂, hout, rfl⟩ := endsWith_iff.1 hends
  obtain ⟨waited, hwait⟩ := waitUntil_of_runsOut "scif reset monitor" hout
  exact ⟨_, _, releaseReset_of_wait_eq_error (by decide) hwrite hwait⟩

/-- The clock of channel 3 is started within 50 microseconds, while its reset is not seen released
in that time. Both control registers held other bits, which are still there. -/
theorem handshakes_guarded_channel_three :
    ∃ (m₁ m₂ : Machine) (r : Except Failure Unit),
      channelThree.startClock.attempt guardedBoard = .ok (.ok ()) m₁ ∧
      channelThree.Handshaken 0x584 0x704 true "scif clock monitor" guardedBoard (.ok ()) m₁ ∧
      (∀ i, channelThree.controlBitSet 0x584 m₁ i =
        if i.val = 3 then true else channelThree.controlBitSet 0x584 guardedBoard i) ∧
      channelThree.releaseReset.attempt guardedBoard = .ok r m₂ ∧ r ≠ .ok () ∧
      channelThree.Handshaken 0x884 0xA04 false "scif reset monitor" guardedBoard r m₂ ∧
      ∀ i, channelThree.controlBitSet 0x884 m₂ i =
        if i.val = 3 then true else channelThree.controlBitSet 0x884 guardedBoard i := by
  obtain ⟨m₁, hstart⟩ := exists_startClock_guardedBoard
  obtain ⟨cause, m₂, hrelease⟩ := exists_releaseReset_guardedBoard
  have hstarted := (handshakes_guarded channelThree (by decide) guardedBoard m₁ _).1 hstart
  have hreleased := (handshakes_guarded channelThree (by decide) guardedBoard m₂ _).2 hrelease
  exact ⟨m₁, m₂, _, hstart, hstarted,
    hstarted.contents_eq (guardedMemory.registers channelThree _ (by decide)) rfl, hrelease, nofun,
    hreleased, hreleased.contents_eq (guardedMemory.registers channelThree _ (by decide)) rfl⟩

end ClockGate

end BringUp.Board
