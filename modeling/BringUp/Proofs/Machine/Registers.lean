import BringUp.Proofs.Machine.Alike

/-!
# Registers behind the bus

What the registers of a device hold may depend on all that happened to it, and a register need not
show what was written to it. A specification says what an access may make of their contents: it is a
relation `step` between contents, the access and the contents afterwards. `Registers d step` are
contents that the device `d` changes in this way, as a view of the accesses made and of memory.

From one machine to another an action `Transacts` a list of accesses if it makes these accesses in
order, and nothing else but what time passes by. Then the contents on the second machine come from
those on the first by a `Run` of the specification over the list (`Registers.run`). So once the
accesses of an action are known, what it does to any hardware is computed from the specification of
the hardware alone.
-/

namespace BringUp

open Firmware

variable {m m₁ m' : Machine} {es fs : List Event}

/-! ### Accesses in order -/

/-- From the first machine to the second, these bus accesses were made, and time may have passed. -/
inductive Machine.Transacts : Machine → List Event → Machine → Prop
  /-- Nothing happens. -/
  | refl (m : Machine) : Transacts m [] m
  /-- A read comes first. -/
  | read {w : Width} {address : UInt64} {v : UInt32} {m m₁ m' : Machine} {es : List Event}
    (h : busRead w address m = .ok v m₁) (hrest : Transacts m₁ es m') :
    Transacts m (.busRead w address v :: es) m'
  /-- A write comes first. -/
  | write {w : Width} {address : UInt64} {v : UInt32} {m m₁ m' : Machine} {es : List Event}
    (h : busWrite w address v m = .ok () m₁) (hrest : Transacts m₁ es m') :
    Transacts m (.busWrite w address (w.truncate v) :: es) m'
  /-- Something beside the bus comes first. -/
  | beside {m m₁ m' : Machine} {es : List Event}
    (h : Alike m.device m m₁) (hrest : Transacts m₁ es m') : Transacts m es m'

namespace Machine.Transacts

theorem trans (h : m.Transacts es m₁) (h' : m₁.Transacts fs m') : m.Transacts (es ++ fs) m' := by
  induction h with
  | refl m => exact h'
  | read h _ ih => exact .read h (ih h')
  | write h _ ih => exact .write h (ih h')
  | beside h _ ih => exact .beside h (ih h')

theorem of_alike (h : Alike m.device m m') : m.Transacts [] m' :=
  .beside h (.refl m')

theorem of_now {t : UInt64} (h : now m = .ok t m') : m.Transacts [] m' :=
  .of_alike ((Alike.refl m).now_right h)

theorem of_log {level : Level} {text : String} (h : log level text m = .ok () m') :
    m.Transacts [] m' := by
  cases h
  exact .of_alike ((Alike.refl m).record_right rfl)

theorem of_read {b : Block} {offset : UInt64} {v : UInt32}
    (h : (b.read offset : Firmware UInt32) m = .ok v m') :
    m.Transacts [.busRead (b.layout.width offset) (b.base + offset) v] m' :=
  .read (Block.busRead_of_read h) (.refl m')

theorem of_write {b : Block} {offset : UInt64} {value : UInt32}
    (h : (b.write offset value : Firmware Unit) m = .ok () m') :
    m.Transacts [.busWrite (b.layout.width offset) (b.base + offset)
      ((b.layout.width offset).truncate value)] m' :=
  .write (Block.busWrite_of_write h) (.refl m')

theorem of_writeInTurn {b : Block} {offset : UInt64} {first second : UInt32}
    (h : (b.writeInTurn offset first second : Firmware Unit) m = .ok () m') :
    m.Transacts [.busWrite (b.layout.width offset) (b.base + offset)
        ((b.layout.width offset).truncate first),
      .busWrite (b.layout.width offset) (b.base + offset)
        ((b.layout.width offset).truncate second)] m' := by
  obtain ⟨_, m₁, hfirst, hsecond⟩ := bind_eq_ok_iff.1 h
  exact (of_write hfirst).trans (of_write hsecond)

theorem of_update {b : Block} {offset : UInt64} {clear set : UInt32}
    (h : (b.update offset clear set : Firmware Unit) m = .ok () m') :
    ∃ v, m.Transacts [.busRead (b.layout.width offset) (b.base + offset) v,
      .busWrite (b.layout.width offset) (b.base + offset)
        ((b.layout.width offset).truncate ((v &&& ~~~clear) ||| set))] m' := by
  obtain ⟨v, m₁, hread, hwrite⟩ := bind_eq_ok_iff.1 h
  exact ⟨v, (of_read hread).trans (of_write hwrite)⟩

theorem device_eq (h : m.Transacts es m') : m'.device = m.device := by
  induction h with
  | refl m => rfl
  | read h _ ih => exact ih.trans (busRead_eq_ok h).1.device_eq
  | write h _ ih => exact ih.trans (busWrite_eq_ok h).device_eq
  | beside h _ ih => exact ih.trans h.device_right

/-- The accesses are the ones that are on record. -/
theorem busTrace_eq (h : m.Transacts es m') : m'.busTrace = m.busTrace ++ es := by
  have hrecorded {m m₁ : Machine} {e : Event} (h : m.Leads [e] m₁) (hbus : e.isBus = true) :
      m₁.busTrace = m.busTrace ++ [e] := by
    rw [busTrace, h.trace_eq, List.filter_append, List.filter_cons_of_pos hbus]
    rfl
  induction h with
  | refl m => exact (List.append_nil _).symm
  | read h _ ih => rw [ih, hrecorded (busRead_eq_ok h).1 rfl, List.append_assoc, List.cons_append,
      List.nil_append]
  | write h _ ih => rw [ih, hrecorded (busWrite_eq_ok h) rfl, List.append_assoc, List.cons_append,
      List.nil_append]
  | beside h _ ih => rw [ih, h.busTrace_eq]

end Machine.Transacts

/-! ### Specifications of registers -/

variable {σ : Type} {step : σ → Event → σ → Prop} {d : Device}

/-- Contents that come from others by accesses in order, each of which changes them by `step`. -/
def Run (step : σ → Event → σ → Prop) : σ → List Event → σ → Prop
  | s, [], s' => s' = s
  | s, e :: es, s' => ∃ s₁, step s e s₁ ∧ Run step s₁ es s'

/-- Registers of a device whose contents each access changes by `step`. What they hold may depend on
the bus accesses that were made and on memory. -/
structure Registers (d : Device) (step : σ → Event → σ → Prop) where
  /-- The contents. -/
  view : List Event → Memory → σ
  /-- What a read makes of them, and gives. -/
  read : ∀ {trace : Trace} {w : Width} {address : UInt64} {earlier : Nat} {mem mem' : Memory},
    d.onRead trace address earlier mem = some mem' →
      step (view (trace.toList.filter Event.isBus) mem)
        (.busRead w address (mem'.load address w))
        (view (trace.toList.filter Event.isBus ++ [.busRead w address (mem'.load address w)]) mem')
  /-- What a write makes of them. -/
  write : ∀ {trace : Trace} {w : Width} {address : UInt64} {value : UInt32} {mem mem' : Memory},
    d.onWrite trace w address value mem = some mem' →
      step (view (trace.toList.filter Event.isBus) mem) (.busWrite w address value)
        (view (trace.toList.filter Event.isBus ++ [.busWrite w address value]) mem')

namespace Registers

variable (regs : Registers d step)

/-- The contents on a machine. -/
def contents (m : Machine) : σ :=
  regs.view m.busTrace m.memory

theorem step_of_busRead {w : Width} {address : UInt64} {v : UInt32}
    (h : busRead w address m = .ok v m') (hdevice : m.device = d) :
    step (regs.contents m) (.busRead w address v) (regs.contents m') := by
  obtain ⟨-, -, memory, hmemory, rfl, rfl⟩ := busRead_eq_ok_iff.1 h
  rw [hdevice] at hmemory
  rw [contents, contents, Machine.busTrace, Machine.busTrace, filter_isBus_push]
  exact regs.read hmemory

theorem step_of_busWrite {w : Width} {address : UInt64} {v : UInt32}
    (h : busWrite w address v m = .ok () m') (hdevice : m.device = d) :
    step (regs.contents m) (.busWrite w address (w.truncate v)) (regs.contents m') := by
  obtain ⟨-, memory, hmemory, rfl⟩ := busWrite_eq_ok_iff.1 h
  rw [hdevice] at hmemory
  rw [contents, contents, Machine.busTrace, Machine.busTrace, filter_isBus_push]
  exact regs.write hmemory

/-- **What accesses make of the contents is told by their specification.** -/
theorem run (h : m.Transacts es m') (hdevice : m.device = d) :
    Run step (regs.contents m) es (regs.contents m') := by
  induction h with
  | refl m => rfl
  | read h _ ih =>
    exact ⟨_, regs.step_of_busRead h hdevice, ih ((busRead_eq_ok h).1.device_eq.trans hdevice)⟩
  | write h _ ih =>
    exact ⟨_, regs.step_of_busWrite h hdevice, ih ((busWrite_eq_ok h).device_eq.trans hdevice)⟩
  | beside h _ ih =>
    rw [contents, h.busTrace_eq, h.memory_eq]
    exact ih (h.device_right.trans hdevice)

end Registers

end BringUp
