import BringUp.Console.Basic
import BringUp.Proofs.Serial.Transmit

/-!
# Sending bytes in order

What a controller writes to its transmit register when it is used as a sink. Bytes are sent one
after the other, so what was proved of sending one byte carries over to a list of bytes by
induction: an enabled controller that sent them wrote exactly these bytes, in order
(`written_of_putAll_eq_ok`), and one that is not enabled does nothing (`putAll_of_ne_enabled`).
-/

namespace BringUp.Serial.Controller

open Firmware

variable {ctrl ctrl' : Controller} {deadline : Deadline} {b : UInt8} {bytes : List UInt8}
  {m m' : Machine} {es : List Event} {p : Event → Prop}

/-! ### One byte -/

/-- Of the accesses that send a byte, one writes the transmit register. -/
theorem Transmitted.written_eq (h : ctrl.Transmitted b es) :
    written (ctrl.line.base + Offset.ftdr) es = [b.toUInt32] := by
  obtain ⟨busy, polls, free, seen, status, ⟨hpolls, -⟩, -, -, -, rfl⟩ := h
  have hread : ∀ value, (ctrl.statusRead value).writtenTo? (ctrl.line.base + Offset.ftdr) = none :=
    fun _ ↦ rfl
  have hstatus : (ctrl.statusWrite status).writtenTo? (ctrl.line.base + Offset.ftdr) = none :=
    if_neg fun heq ↦ absurd ((UInt64.add_right_inj _).1 heq) (by decide)
  have hdata : (ctrl.dataWrite b).writtenTo? (ctrl.line.base + Offset.ftdr) = some b.toUInt32 :=
    if_pos rfl
  have hbusy : written (ctrl.line.base + Offset.ftdr) polls = [] := by
    refine written_eq_nil fun e he ↦ ?_
    rw [hpolls] at he
    obtain ⟨_, -, rfl⟩ := List.mem_map.1 he
    rfl
  rw [written_append, hbusy, List.nil_append, written, List.filterMap_cons_none (hread free),
    List.filterMap_cons_some hdata, List.filterMap_cons_none (hread seen),
    List.filterMap_cons_none hstatus, List.filterMap_nil]

/-- An attempt that gave up has written nothing. -/
theorem GaveUp.written_eq (h : ctrl.GaveUp es) : written (ctrl.line.base + Offset.ftdr) es = [] := by
  obtain ⟨busy, -, rfl, -⟩ := h
  refine written_eq_nil fun e he ↦ ?_
  obtain ⟨_, -, rfl⟩ := List.mem_map.1 he
  rfl

/-- A byte that was sent was written once. -/
theorem written_of_send_eq_ok (henabled : ctrl.phase = .enabled)
    (h : ctrl.send b m = .ok () m') (hes : m.Leads es m') :
    written (ctrl.line.base + Offset.ftdr) es = [b.toUInt32] := by
  obtain ⟨fs, htrace, hsent⟩ := send_eq_ok henabled h
  obtain rfl : es = fs := List.append_cancel_left (hes.trace_eq.symm.trans htrace)
  rw [← written_filter_isBus, hsent.written_eq]

/-- So was one that was sent within a deadline. -/
theorem written_of_trySend_eq_ok (henabled : ctrl.phase = .enabled)
    (h : ctrl.trySend deadline b m = .ok () m') (hes : m.Leads es m') :
    written (ctrl.line.base + Offset.ftdr) es = [b.toUInt32] := by
  obtain ⟨fs, htrace, hsent⟩ := trySend_eq_ok henabled h
  obtain rfl : es = fs := List.append_cancel_left (hes.trace_eq.symm.trans htrace)
  rw [← written_filter_isBus, hsent.written_eq]

/-- One that was not sent in time was not written. -/
theorem written_of_trySend_eq_failure (henabled : ctrl.phase = .enabled) {cause : Failure}
    (h : ctrl.trySend deadline b m = .error (.failure cause) m') (hes : m.Leads es m') :
    written (ctrl.line.base + Offset.ftdr) es = [] := by
  obtain ⟨-, fs, htrace, hgave⟩ := trySend_eq_failure henabled h
  obtain rfl : es = fs := List.append_cancel_left (hes.trace_eq.symm.trans htrace)
  rw [← written_filter_isBus, hgave.written_eq]

/-! ### Many bytes -/

/-- A byte goes out before the bytes behind it. -/
theorem putAll_cons (ctrl : Controller) (b : UInt8) (bytes : List UInt8) :
    (Sink.putAll ctrl (b :: bytes) : Firmware Controller) =
      ctrl.send b >>= fun _ ↦ Sink.putAll ctrl bytes := by
  show (ctrl.send b >>= fun _ ↦ pure ctrl) >>= (fun sink ↦ Sink.putAll sink bytes) = _
  simp only [bind_assoc, pure_bind]

theorem putAll_singleton (ctrl : Controller) (b : UInt8) :
    (Sink.putAll ctrl [b] : Firmware Controller) = Sink.put ctrl b := by
  rw [putAll_cons]
  rfl

/-- Sending leaves the controller as it is. -/
theorem putAll_eq_ok (h : (Sink.putAll ctrl bytes : Firmware Controller) m = .ok ctrl' m') :
    ctrl' = ctrl := by
  induction bytes generalizing m with
  | nil =>
    cases h
    rfl
  | cons b bytes ih =>
    rw [putAll_cons] at h
    obtain ⟨_, m₁, -, hrest⟩ := bind_eq_ok_iff.1 h
    exact ih hrest

theorem putAll_ne_failure {cause : Failure} :
    (Sink.putAll ctrl bytes : Firmware Controller) m ≠ .error (.failure cause) m' := by
  induction bytes generalizing m with
  | nil => nofun
  | cons b bytes ih =>
    rw [putAll_cons]
    intro h
    rcases bind_eq_error_iff.1 h with hsend | ⟨_, m₁, -, hrest⟩
    · exact send_ne_failure hsend
    · exact ih hrest

theorem emits_putAll (hp : ∀ e : Event, e.Within (transmission ctrl.line.base) → p e)
    (bytes : List UInt8) : Emits p (Sink.putAll ctrl bytes : Firmware Controller) := by
  induction bytes with
  | nil => exact .pure _
  | cons b bytes ih =>
    rw [putAll_cons]
    exact .bind (emits_send_of fun e he _ ↦ hp e he) fun _ ↦ ih

/-- A controller that is not enabled does nothing. -/
theorem putAll_of_ne_enabled (h : ctrl.phase ≠ .enabled) (bytes : List UInt8) (m : Machine) :
    (Sink.putAll ctrl bytes : Firmware Controller) m = .ok ctrl m := by
  induction bytes with
  | nil => rfl
  | cons b bytes ih => rw [putAll_cons, bind_of_ok (send_of_ne_enabled h), ih]

/-- **Bytes that were sent were written, each once and in order.** -/
theorem written_of_putAll_eq_ok (henabled : ctrl.phase = .enabled)
    (h : (Sink.putAll ctrl bytes : Firmware Controller) m = .ok ctrl' m') (hes : m.Leads es m') :
    written (ctrl.line.base + Offset.ftdr) es = bytes.map UInt8.toUInt32 := by
  induction bytes generalizing m es with
  | nil =>
    cases h
    obtain rfl : es = [] := List.self_eq_append_right.1 hes.trace_eq
    rfl
  | cons b bytes ih =>
    rw [putAll_cons] at h
    obtain ⟨_, m₁, hsend, hrest⟩ := bind_eq_ok_iff.1 h
    have hemits : ∀ bytes, Emits (fun _ ↦ True) (Sink.putAll ctrl bytes : Firmware Controller) :=
      emits_putAll fun _ _ ↦ trivial
    obtain ⟨es₁, hes₁, -⟩ := (emits_send ctrl b).of_ok hsend
    obtain ⟨es₂, hes₂, -⟩ := (hemits bytes).of_ok hrest
    -- the events are those of the first byte and then those of the others
    obtain rfl : es = es₁ ++ es₂ :=
      List.append_cancel_left (hes.trace_eq.symm.trans (hes₁.trans hes₂).trace_eq)
    rw [written_append, written_of_send_eq_ok henabled hsend hes₁, ih hrest hes₂]
    rfl

end BringUp.Serial.Controller
