import BringUp.Proofs.Bus.Memory
import BringUp.Proofs.Machine.Footprint
import BringUp.Proofs.Machine.Poll
import BringUp.Serial.Controller

/-!
# Sending a byte

What sending leaves on the bus, whatever the device does: the status register is read until both
transmit flags are set, the byte is written, the status is read once more, and what was read then is
written back without the two flags (`transmit_protocol`). A flag that the device raised by the time
of the second reading is therefore not cleared.

The wait is followed through `Firmware.Busy`; each of its failing tests is one status reading, and
its clock readings are no bus accesses.
-/

namespace BringUp.Serial

/-- What sending accesses of a controller. -/
def transmission (base : UInt64) : List Access :=
  Block.footprint ⟨base, layout⟩ [Offset.fsr] [Offset.ftdr, Offset.fsr]

namespace Controller

open Firmware

variable {ctrl : Controller} {deadline : Deadline} {b : UInt8} {m m' : Machine}

/-! ### The accesses -/

/-- A reading of the status register. -/
def statusRead (ctrl : Controller) (status : UInt32) : Event :=
  .busRead .half (ctrl.line.base + 0x08) status

/-- A writing of the status register. -/
def statusWrite (ctrl : Controller) (status : UInt32) : Event :=
  .busWrite .half (ctrl.line.base + 0x08) status

/-- A writing of the transmit register. -/
def dataWrite (ctrl : Controller) (b : UInt8) : Event :=
  .busWrite .byte (ctrl.line.base + 0x06) b.toUInt32

/-- Readings of the status register in which the transmitter is not ready. -/
def Polled (ctrl : Controller) (busy : List UInt32) (accesses : List Event) : Prop :=
  accesses = busy.map ctrl.statusRead ∧ ∀ status ∈ busy, status &&& 0x60 ≠ 0x60

/-- The bus accesses by which a byte is sent: readings of the status register up to the first one
with both transmit flags, the byte, another reading of the status, and a writing in which the two
flags of that reading are cleared and all others kept. -/
def Transmitted (ctrl : Controller) (b : UInt8) (accesses : List Event) : Prop :=
  ∃ busy polls free seen written, ctrl.Polled busy polls ∧ free &&& 0x60 = 0x60 ∧
    written = seen &&& ~~~0x60 ∧ (∀ flag, flag &&& 0x60 = 0 → written &&& flag = seen &&& flag) ∧
    accesses = polls ++
      [ctrl.statusRead free, ctrl.dataWrite b, ctrl.statusRead seen, ctrl.statusWrite written]

/-- The bus accesses of an attempt that ran out of time: one reading of the status register or more,
none with both transmit flags. -/
def GaveUp (ctrl : Controller) (accesses : List Event) : Prop :=
  ∃ busy, busy ≠ [] ∧ ctrl.Polled busy accesses

/-- What `es` adds to the trace between two machines has these bus accesses. -/
def BusBetween (m m' : Machine) (p : List Event → Prop) : Prop :=
  ∃ es, m'.trace.toList = m.trace.toList ++ es ∧ p (es.filter Event.isBus)

/-! ### Flags -/

theorem txReady_iff {status : UInt32} : Fsr.txReady status = true ↔ status &&& 0x60 = 0x60 :=
  beq_iff_eq

/-- A status with the transmit flags cleared has all its other flags. -/
theorem and_flag_of_cleared (status : UInt32) {flag : UInt32} (h : flag &&& 0x60 = 0) :
    (status &&& ~~~0x60) &&& flag = status &&& flag := by
  have hflag : ~~~0x60 &&& flag = flag := by
    refine UInt32.toBitVec_inj.1 (BitVec.eq_of_getLsbD_eq fun i hi ↦ ?_)
    have hbit := congrArg (fun w : UInt32 ↦ w.toBitVec.getLsbD i) h
    simp only [UInt32.toBitVec_and, BitVec.getLsbD_and] at hbit
    simp only [UInt32.toBitVec_and, UInt32.toBitVec_not, BitVec.getLsbD_and, BitVec.getLsbD_not, hi]
    cases hf : flag.toBitVec.getLsbD i with
    | false => simp
    | true =>
      rw [hf] at hbit
      simpa using hbit
  rw [UInt32.and_assoc, hflag]

/-! ### Reading the status -/

theorem ready_eq_ok {answer : Bool} (h : ctrl.ready m = .ok answer m') :
    ∃ status, m.Leads [ctrl.statusRead status] m' ∧ answer = Fsr.txReady status := by
  obtain ⟨status, m₁, hread, hpure⟩ := bind_eq_ok_iff.1 h
  cases hpure
  exact ⟨status, (Block.read_eq_ok hread).1, rfl⟩

/-- A test that succeeds has read both transmit flags. -/
theorem ready_eq_true (h : ctrl.ready m = .ok true m') :
    ∃ free, m.Leads [ctrl.statusRead free] m' ∧ free &&& 0x60 = 0x60 := by
  obtain ⟨free, hes, hanswer⟩ := ready_eq_ok h
  exact ⟨free, hes, txReady_iff.1 hanswer.symm⟩

/-- A test that fails has read a status that lacks one of them. -/
theorem ready_eq_false (h : ctrl.ready m = .ok false m') :
    ∃ status, m.Leads [ctrl.statusRead status] m' ∧ status &&& 0x60 ≠ 0x60 := by
  obtain ⟨status, hes, hanswer⟩ := ready_eq_ok h
  refine ⟨status, hes, fun hflags ↦ ?_⟩
  rw [txReady_iff.2 hflags] at hanswer
  cases hanswer

/-- The test does not fail. -/
theorem ready_ne_failure {cause : Failure} : ctrl.ready m ≠ .error (.failure cause) m' :=
  show ctrl.block.test Offset.fsr Fsr.txReady m ≠ _ from Block.test_ne_failure

theorem Polled.cons {busy : List UInt32} {accesses : List Event} {status : UInt32}
    (h : ctrl.Polled busy accesses) (hstatus : status &&& 0x60 ≠ 0x60) :
    ctrl.Polled (status :: busy) (ctrl.statusRead status :: accesses) :=
  ⟨congrArg (_ :: ·) h.1, List.forall_mem_cons.2 ⟨hstatus, h.2⟩⟩

theorem Polled.concat {busy : List UInt32} {accesses : List Event} {status : UInt32}
    (h : ctrl.Polled busy accesses) (hstatus : status &&& 0x60 ≠ 0x60) :
    ctrl.Polled (busy ++ [status]) (accesses ++ [ctrl.statusRead status]) := by
  refine ⟨?_, fun w hw ↦ ?_⟩
  · rw [h.1, List.map_append]
    rfl
  · rcases List.mem_append.1 hw with hw | hw
    · exact h.2 w hw
    · rw [List.mem_singleton.1 hw]
      exact hstatus

/-- While the wait is busy, the status is read and found wanting. -/
theorem polled_of_busy (h : Busy ctrl.ready m m') :
    ∃ es busy, m.Leads es m' ∧ ctrl.Polled busy (es.filter Event.isBus) := by
  induction h with
  | refl m => exact ⟨[], [], .refl m, rfl, by simp⟩
  | test hready _ ih =>
    obtain ⟨status, hes, hstatus⟩ := ready_eq_false hready
    obtain ⟨es, busy, hrest, hpolls⟩ := ih
    exact ⟨_, status :: busy, hes.trans hrest, hpolls.cons hstatus⟩
  | tick hnow _ ih =>
    obtain ⟨es, busy, hrest, hpolls⟩ := ih
    -- a clock reading is no bus access, so the accesses are those of the rest
    exact ⟨_, busy, (now_eq_ok hnow).1.trans hrest, hpolls⟩

/-! ### Sending -/

/-- A byte that was sent. -/
theorem trySend_eq_ok (henabled : ctrl.phase = .enabled)
    (h : ctrl.trySend deadline b m = .ok () m') : BusBetween m m' (ctrl.Transmitted b) := by
  rw [trySend, if_pos henabled] at h
  obtain ⟨_, m₁, hwait, hrest⟩ := bind_eq_ok_iff.1 h
  obtain ⟨_, m₂, hdata, hrest⟩ := bind_eq_ok_iff.1 hrest
  obtain ⟨seen, m₃, hread, hwrite⟩ := bind_eq_ok_iff.1 hrest
  obtain ⟨m₀, hbusy, htrue⟩ := waitUntil_eq_ok hwait
  obtain ⟨es, busy, hes, hpolled⟩ := polled_of_busy hbusy
  obtain ⟨free, hfree, hflags⟩ := ready_eq_true htrue
  obtain ⟨hseen, hload⟩ := Block.read_eq_ok hread
  -- a half word was read, so writing a half word loses nothing of it
  have hlt : seen.toNat < 0x10000 := hload ▸ Memory.load_half_lt _ _
  have hwritten : m₃.Leads [ctrl.statusWrite (seen &&& ~~~0x60)] m' := by
    have := Block.write_eq_ok hwrite
    rwa [show ctrl.block.layout.width Offset.fsr = .half from rfl,
      Width.truncate_half_and hlt] at this
  have hbyte : m₁.Leads [ctrl.dataWrite b] m₂ := by
    have := Block.write_eq_ok hdata
    rwa [show ctrl.block.layout.width Offset.ftdr = .byte from rfl, Width.truncate_byte] at this
  have hall := hes.trans (hfree.trans (hbyte.trans (hseen.trans hwritten)))
  refine ⟨_, hall.trace_eq, busy, _, free, seen, seen &&& ~~~0x60, hpolled, hflags, rfl,
    fun flag ↦ and_flag_of_cleared seen, ?_⟩
  rw [List.filter_append]
  rfl

/-- An attempt that failed. -/
theorem trySend_eq_failure (henabled : ctrl.phase = .enabled) {cause : Failure}
    (h : ctrl.trySend deadline b m = .error (.failure cause) m') :
    (∃ limit waited, deadline = .after limit ∧ cause = .timeout "scif transmit ready" waited) ∧
      BusBetween m m' ctrl.GaveUp := by
  rw [trySend, if_pos henabled] at h
  rcases bind_eq_error_iff.1 h with hwait | ⟨_, m₁, -, hrest⟩
  · rcases waitUntil_eq_failure hwait with
      ⟨m₁, hready⟩ | ⟨⟨limit, waited, hdeadline, hcause, -⟩, m₁, m₂, t, hbusy, hfalse, hnow⟩
    · exact absurd hready ready_ne_failure
    · refine ⟨⟨limit, waited, hdeadline, hcause⟩, ?_⟩
      -- the last test is one more reading, and the last clock reading is none
      obtain ⟨es, busy, hes, hpolls⟩ := polled_of_busy hbusy
      obtain ⟨status, hread, hstatus⟩ := ready_eq_false hfalse
      have hall := hes.trans (hread.trans (now_eq_ok hnow).1)
      refine ⟨_, hall.trace_eq, busy ++ [status], by simp, ?_⟩
      rw [List.filter_append]
      exact hpolls.concat hstatus
  · -- once the wait has ended, nothing can fail
    rcases bind_eq_error_iff.1 hrest with hdata | ⟨_, m₂, -, hrest⟩
    · exact absurd hdata Block.write_ne_failure
    · rcases bind_eq_error_iff.1 hrest with hread | ⟨seen, m₃, -, hwrite⟩
      · exact absurd hread Block.read_ne_failure
      · exact absurd hwrite Block.write_ne_failure

/-- Sending without bound does not give up. -/
theorem send_eq_ok (henabled : ctrl.phase = .enabled) (h : ctrl.send b m = .ok () m') :
    BusBetween m m' (ctrl.Transmitted b) := by
  obtain ⟨r, m₁, hattempt, hpure⟩ := bind_eq_ok_iff.1 h
  cases hpure
  rcases attempt_eq_ok hattempt with ⟨_, -, hok⟩ | ⟨cause, -, hfail⟩
  · exact trySend_eq_ok henabled hok
  · obtain ⟨⟨limit, waited, hdeadline, -⟩, -⟩ := trySend_eq_failure henabled hfail
    cases hdeadline

theorem send_ne_failure {cause : Failure} : ctrl.send b m ≠ .error (.failure cause) m' := by
  intro h
  rcases bind_eq_error_iff.1 h with hattempt | ⟨r, m₁, -, hpure⟩
  · exact attempt_ne_failure hattempt
  · cases hpure

/-! ### A controller that is not enabled -/

theorem trySend_of_ne_enabled (h : ctrl.phase ≠ .enabled) :
    ctrl.trySend deadline b m =
      .error (.failure (.badOperand "transmit on a controller that is not enabled")) m := by
  rw [trySend, if_neg h]
  rfl

theorem send_of_ne_enabled (h : ctrl.phase ≠ .enabled) : ctrl.send b m = .ok () m := by
  have hattempt : attempt (ctrl.trySend .never b) m =
      .ok (.error (.badOperand "transmit on a controller that is not enabled")) m := by
    rw [attempt, trySend_of_ne_enabled h]
  rw [send, bind_of_ok hattempt]
  rfl

/-! ### Nothing is logged -/

/-- The event is no log record. -/
def Unlogged (e : Event) : Prop :=
  ∀ level text, e ≠ .log level text

/-- Sending emits accesses to the two registers and readings of the clock. -/
theorem emits_trySend_of {p : Event → Prop}
    (hp : ∀ e : Event, e.Within (transmission ctrl.line.base) → Unlogged e → p e) :
    Emits p (ctrl.trySend deadline b) := by
  have hread : Emits p (ctrl.block.read Offset.fsr : Firmware UInt32) :=
    Block.emits_read fun _ ↦ hp _ (List.mem_append_left _ (List.mem_map_of_mem (by decide))) nofun
  have hwrite : ∀ {offset}, offset ∈ [Offset.ftdr, Offset.fsr] → ∀ value,
      Emits p (ctrl.block.write offset value : Firmware Unit) := fun h _ ↦
    Block.emits_write (hp _ (List.mem_append_right _ (List.mem_map_of_mem h)) nofun)
  refine .ite ?_ (.fail _)
  refine .bind (.waitUntil (.bind hread fun _ ↦ .pure _) (fun _ ↦ hp _ trivial nofun) _ _) fun _ ↦ ?_
  exact .bind (hwrite (by decide) _) fun _ ↦ .bind hread fun _ ↦ hwrite (by decide) _

theorem emits_send_of {p : Event → Prop}
    (hp : ∀ e : Event, e.Within (transmission ctrl.line.base) → Unlogged e → p e) :
    Emits p (ctrl.send b) :=
  .bind (.attempt (emits_trySend_of hp)) fun _ ↦ .pure _

theorem emits_trySend (ctrl : Controller) (deadline : Deadline) (b : UInt8) :
    Emits Unlogged (ctrl.trySend deadline b) :=
  emits_trySend_of fun _ _ ↦ id

theorem emits_send (ctrl : Controller) (b : UInt8) : Emits Unlogged (ctrl.send b) :=
  emits_send_of fun _ _ ↦ id

/-! ### The protocol -/

/-- **Sending a byte, under any device.** On an enabled controller an attempt that ends has sent the
byte, and one that fails has given up waiting; sending without bound always sends the byte if it
ends. On any other controller nothing is done at all. No log record is ever emitted, however the
attempt ends. -/
theorem transmit_protocol (ctrl : Controller) (deadline : Deadline) (b : UInt8) (m : Machine) :
    (ctrl.phase = .enabled →
      (∀ m', ctrl.trySend deadline b m = .ok () m' → BusBetween m m' (ctrl.Transmitted b)) ∧
      (∀ cause m', ctrl.trySend deadline b m = .error (.failure cause) m' →
        cause.isTimeout = true ∧ BusBetween m m' ctrl.GaveUp) ∧
      (∀ m', ctrl.send b m = .ok () m' → BusBetween m m' (ctrl.Transmitted b)) ∧
      ∀ cause m', ctrl.send b m ≠ .error (.failure cause) m') ∧
    (ctrl.phase ≠ .enabled →
      ctrl.trySend deadline b m =
          .error (.failure (.badOperand "transmit on a controller that is not enabled")) m ∧
        ctrl.send b m = .ok () m) ∧
    (∃ es, m.Leads es ((ctrl.trySend deadline b).after m) ∧ ∀ e ∈ es, Unlogged e) ∧
      ∃ es, m.Leads es ((ctrl.send b).after m) ∧ ∀ e ∈ es, Unlogged e := by
  refine ⟨fun henabled ↦ ⟨?_, ?_, ?_, ?_⟩, fun hne ↦ ⟨?_, ?_⟩, ?_, ?_⟩
  · exact fun m' h ↦ trySend_eq_ok henabled h
  · intro cause m' h
    obtain ⟨⟨limit, waited, -, hcause⟩, hgave⟩ := trySend_eq_failure henabled h
    exact ⟨by rw [hcause]; rfl, hgave⟩
  · exact fun m' h ↦ send_eq_ok henabled h
  · exact fun cause m' ↦ send_ne_failure
  · exact trySend_of_ne_enabled hne
  · exact send_of_ne_enabled hne
  · exact emits_trySend ctrl deadline b m
  · exact emits_send ctrl b m

/-- One byte, to a device that is always ready and has another flag raised. -/
theorem transmit_protocol_one_byte :
    ∃ (ctrl : Controller) (m m' : Machine), ctrl.phase = .enabled ∧ ctrl.send 0x41 m = .ok () m' ∧
      BusBetween m m' (ctrl.Transmitted 0x41) := by
  let memory := Memory.empty.store 0x1008 (bytesOf Width.half.bytes 0xE0)
  let device : Device := ⟨fun _ _ _ _ ↦ some memory, fun _ _ _ _ memory ↦ some memory⟩
  let ctrl : Controller := ⟨⟨0x1000, 100000000, 115200, 26, true, by decide⟩, .enabled⟩
  let m : Machine := { device, watchdog := ⟨2, 0, 0, 0⟩ }
  have hload : Fsr.txReady (memory.load 0x1008 .half) = true := by
    rw [Memory.load_store]
    rfl
  -- the test succeeds at once, and leaves one more bus read to the watchdog
  obtain ⟨m₁, hready, hdevice, hwatchdog⟩ :
      ∃ m₁, ctrl.ready m = .ok (Fsr.txReady (memory.load 0x1008 .half)) m₁ ∧
        m₁.device = device ∧ m₁.watchdog = ⟨2, 1, 0, 0⟩ := ⟨_, rfl, rfl, rfl⟩
  rw [hload] at hready
  have hrounds : rounds m = .ok 3 m := rfl
  have hspin : spin ctrl.ready 3 m = .ok () m₁ := bind_of_ok hready
  have hwait : waitUntil .never "scif transmit ready" ctrl.ready m = .ok () m₁ :=
    (bind_of_ok hrounds).trans hspin
  obtain ⟨m', hrest⟩ : ∃ m', (do
      ctrl.block.write Offset.ftdr 0x41
      let status ← ctrl.block.read Offset.fsr
      ctrl.block.write Offset.fsr (status &&& ~~~Fsr.txReadyMask) : Firmware Unit) m₁ =
        .ok () m' := by
    obtain ⟨memory, device, reads, clock, csrs, watchdog, trace, logStart⟩ := m₁
    subst hdevice hwatchdog
    exact ⟨_, rfl⟩
  have htry : ctrl.trySend .never 0x41 m = .ok () m' := (bind_of_ok hwait).trans hrest
  have hattempt : attempt (ctrl.trySend .never 0x41) m = .ok (.ok ()) m' := by
    rw [attempt, htry]
  have hsend : ctrl.send 0x41 m = .ok () m' := bind_of_ok hattempt
  exact ⟨ctrl, m, m', rfl, hsend, ((transmit_protocol ctrl .never 0x41 m).1 rfl).2.2.1 m' hsend⟩

end Controller

end BringUp.Serial
