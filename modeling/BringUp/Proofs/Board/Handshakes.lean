import BringUp.Board.ClockGate
import BringUp.Bus.Script
import BringUp.Proofs.Machine.Deadline

/-!
# Handshakes with a deadline and without

A handshake writes to the hardware and waits for it to follow. Its deadline decides how long it
waits and nothing else: when it succeeds in time, the same accesses were made as without a bound,
and memory is the same. `handshakes_agree` says so of sending a byte, of starting a clock and of
releasing a reset, on every device that bus accesses drive, and says how the two kinds of wait that
all three rest on relate, test by test.

All devices that rules describe are such devices (`Device.drivenByBus_foldl_install`).
-/

namespace BringUp

/-! ### Devices that rules describe -/

namespace Device

theorem drivenByBus_plain : plain.DrivenByBus :=
  ⟨fun _ ↦ rfl, fun _ ↦ rfl⟩

variable {d : Device}

theorem DrivenByBus.reactToRead (h : d.DrivenByBus) (address : UInt64)
    (react : Nat → Memory → Option Memory) : (d.reactToRead address react).DrivenByBus where
  onRead_eq htrace := by
    funext a earlier mem
    simp only [Device.reactToRead, h.onRead_eq htrace]
  onWrite_eq := h.onWrite_eq

theorem DrivenByBus.reactToWrite (h : d.DrivenByBus) (address : UInt64)
    (react : UInt32 → Memory → Option Memory) : (d.reactToWrite address react).DrivenByBus where
  onRead_eq := h.onRead_eq
  onWrite_eq htrace := by
    funext w a value mem
    simp only [Device.reactToWrite, h.onWrite_eq htrace]

theorem DrivenByBus.install (h : d.DrivenByBus) (rule : Rule) : (d.install rule).DrivenByBus := by
  cases rule with
  | read address start stop acts => exact h.reactToRead address _
  | write address mask want acts => exact h.reactToWrite address _

theorem drivenByBus_foldl_install (rules : List Rule) :
    (rules.foldl install plain).DrivenByBus :=
  List.foldlRecOn rules install drivenByBus_plain fun _ h rule _ ↦ h.install rule

end Device

variable {d : Device}

/-! ### Register blocks -/

namespace Firmware.EndsAlike

theorem read (hd : d.DrivenByBus) (b : Block) (offset : UInt64) :
    EndsAlike d (b.read offset) (b.read offset) :=
  .bind (.lift _) fun _ ↦ .busRead hd _ _

theorem write (hd : d.DrivenByBus) (b : Block) (offset : UInt64) (value : UInt32) :
    EndsAlike d (b.write offset value) (b.write offset value) :=
  .bind (.lift _) fun _ ↦ .busWrite hd _ _ _

end Firmware.EndsAlike

/-! ### Handshakes -/

open Firmware

/-- Sending a byte. -/
theorem Serial.Controller.endsAlike_trySend (hd : d.DrivenByBus) (ctrl : Controller)
    (limit : UInt64) (b : UInt8) :
    EndsAlike d (ctrl.trySend .never b) (ctrl.trySend (.after limit) b) := by
  have hready : EndsAlike d ctrl.ready ctrl.ready := .bind (.read hd _ _) fun _ ↦ .pure _
  refine .ite ?_ (.stop _ _)
  refine .bind (.waitUntil hready limit _) fun _ ↦ ?_
  exact .bind (.write hd _ _ _) fun _ ↦ .bind (.read hd _ _) fun _ ↦ .write hd _ _ _

namespace Board.ClockGate

/-- Setting a control bit and waiting for its monitor. -/
theorem endsAlike_handshake (hd : d.DrivenByBus) (gate : ClockGate) (limit : UInt64)
    (control monitor : UInt64) (want : Bool) (what : String) :
    EndsAlike d ({ gate with deadline := .never }.handshake control monitor want what)
      ({ gate with deadline := .after limit }.handshake control monitor want what) := by
  refine .bind (.lift _) fun bit ↦ .bind (.lift _) fun guard ↦ .bind (.write hd _ _ _) fun _ ↦ ?_
  refine .attempt_bind (.waitUntil (.bind (.read hd _ _) fun _ ↦ .pure _) limit what) ?_ ?_
  · exact fun _ ↦ .pure _
  -- a wait that failed is logged, and fails
  · intro cause n _ n' h
    obtain ⟨_, _, -, hfail⟩ := bind_eq_ok_iff.1 h
    cases hfail

theorem endsAlike_startClock (hd : d.DrivenByBus) (gate : ClockGate) (limit : UInt64) :
    EndsAlike d { gate with deadline := .never }.startClock
      { gate with deadline := .after limit }.startClock :=
  .bind (endsAlike_handshake hd gate limit _ _ _ _) fun _ ↦ .log _ _

theorem endsAlike_releaseReset (hd : d.DrivenByBus) (gate : ClockGate) (limit : UInt64) :
    EndsAlike d { gate with deadline := .never }.releaseReset
      { gate with deadline := .after limit }.releaseReset :=
  .bind (endsAlike_handshake hd gate limit _ _ _ _) fun _ ↦ .log _ _

end Board.ClockGate

/-- From this machine, wherever the second action succeeds so does the first one, with the same bus
accesses and the same memory. -/
def Firmware.Reproduces (x y : Firmware Unit) (m : Machine) : Prop :=
  ∀ n', y m = .ok () n' →
    ∃ m', x m = .ok () m' ∧ m'.busTrace = n'.busTrace ∧ m'.memory = n'.memory

theorem Firmware.EndsAlike.reproduces {x y : Firmware Unit} {m : Machine}
    (h : EndsAlike m.device x y) : x.Reproduces y m := by
  intro n' hy
  obtain ⟨m', hx, h'⟩ := h m m (.refl m) () n' hy
  exact ⟨m', hx, h'.busTrace_eq, h'.memory_eq⟩

namespace Board

/-- **A deadline decides how long a handshake waits, and nothing else.**

Of the wait, for every script of answers, every clock and every limit:

* where the wait without bound ends after `k` tests, and the clock can be read so often, the wait
  with a limit ends after `k` tests or gives up after at least one and fewer than `k`;
* where the wait with a limit ends, the wait without bound ends after as many tests;
* where the wait with a limit fails, every test failed, and the time reported, which is from the
  first to the last reading of the clock, is the first one to reach the limit.

Of sending a byte, starting a clock and releasing a reset, on every device that bus accesses drive:
success within a limit leaves the same bus accesses and memory as success without bound. -/
theorem handshakes_agree (what : String) (limit : UInt64) (m : Machine) :
    (∀ answers k, m.Readable k → (waitUntil .never what (check answers)).EndsAfter k m →
      (waitUntil (.after limit) what (check answers)).EndsAfter k m ∨
        ∃ j, 1 ≤ j ∧ j < k ∧
          (waitUntil (.after limit) what (check answers)).TimesOutAfter what j m) ∧
    (∀ answers k, (waitUntil (.after limit) what (check answers)).EndsAfter k m →
      (waitUntil .never what (check answers)).EndsAfter k m) ∧
    (∀ answers cause m',
      waitUntil (.after limit) what (check answers) m = .error (.failure cause) m' →
        ∃ start readings last, m.Leads ((start :: (readings ++ [last])).map .clockRead) m' ∧
          cause = .timeout what (last - start) ∧
          Expired answers limit start readings last m m') ∧
    (m.device.DrivenByBus →
      (∀ (ctrl : Serial.Controller) b,
        (ctrl.trySend .never b).Reproduces (ctrl.trySend (.after limit) b) m) ∧
      ∀ gate : ClockGate,
        { gate with deadline := .never }.startClock.Reproduces
            { gate with deadline := .after limit }.startClock m ∧
          { gate with deadline := .never }.releaseReset.Reproduces
            { gate with deadline := .after limit }.releaseReset m) := by
  refine ⟨?_, ?_, ?_, fun hd ↦ ⟨?_, fun gate ↦ ⟨?_, ?_⟩⟩⟩
  · exact fun answers k hreadable h ↦ waitUntil_of_never hreadable h
  · exact fun answers k h ↦ never_of_waitUntil h
  · exact fun answers cause m' h ↦ waitUntil_check_eq_failure h
  · exact fun ctrl b ↦ (ctrl.endsAlike_trySend hd limit b).reproduces
  · exact (gate.endsAlike_startClock hd limit).reproduces
  · exact (gate.endsAlike_releaseReset hd limit).reproduces

/-- A board whose registers are clear, except that the clock of channel 0 is seen running from the
third look on. -/
def slowBoard : Device where
  onRead _ address earlier _ := some <| Memory.empty.store address
    [if address = 0x11010704 ∧ 2 ≤ earlier then 0x01 else 0x00]
  onWrite _ _ _ _ mem := some mem

/-- The clock of that board is started within 50 microseconds, and a script that succeeds at the
third test is followed to its end. -/
theorem handshakes_agree_on_third_look :
    ∃ (gate : ClockGate) (m m' n' : Machine), m.device.DrivenByBus ∧
      { gate with deadline := .after 50 }.startClock m = .ok () n' ∧
      { gate with deadline := .never }.startClock m = .ok () m' ∧
      m'.busTrace = n'.busTrace ∧ m'.memory = n'.memory ∧ m.Readable 3 ∧
      (waitUntil (.after 50) "clock" (check (2 ≤ ·))).EndsAfter 3 m ∧
      (waitUntil .never "clock" (check (2 ≤ ·))).EndsAfter 3 m := by
  let m : Machine := { device := slowBoard, clock := .stepping 0 1, watchdog := ⟨10, 0, 0, 0⟩ }
  let gate : ClockGate := ⟨0x11010000, 0, .never⟩
  have hdriven : m.device.DrivenByBus := ⟨fun _ ↦ rfl, fun _ ↦ rfl⟩
  have hends : { gate with deadline := .after 50 }.startClock.endsWith (fun _ _ ↦ true) m =
      true := by cbv
  obtain ⟨⟨⟩, n', hlimit, -⟩ := endsWith_iff.1 hends
  obtain ⟨-, hscript, -, hdevice⟩ := handshakes_agree "clock" 50 m
  obtain ⟨m', hnever, hbus, hmemory⟩ := ((hdevice hdriven).2 gate).1 n' hlimit
  have hreadable : m.Readable 3 := Machine.readable_of_le (fun _ _ ↦ rfl) (by decide)
  have hscripted : (waitUntil (.after 50) "clock" (check (2 ≤ ·))).endsWith
      (fun _ m' ↦ m'.watchdog.checks = 3) m = true := by cbv
  obtain ⟨⟨⟩, m₁, hwait, hchecks⟩ := endsWith_iff.1 hscripted
  have hafter : (waitUntil (.after 50) "clock" (check (2 ≤ ·))).EndsAfter 3 m :=
    ⟨m₁, hwait, of_decide_eq_true hchecks⟩
  exact ⟨gate, m, m', n', hdriven, hlimit, hnever, hbus, hmemory, hreadable, hafter,
    hscript _ 3 hafter⟩

end Board

end BringUp
