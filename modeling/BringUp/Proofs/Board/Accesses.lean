import BringUp.Proofs.Board.Opening

/-!
# Registers that are accessed

Whatever is asked of the platform, and whatever the devices do, the firmware accesses the registers
listed here, in the listed directions and widths, and nothing else (`accesses_documented`). The
lists are written out as in the manual, by place, width and direction. They do not refer to the
tables from which an access computes its width, so a register that was missing from such a table
would not be covered by them.

The receive register of the serial controller is not listed: reading it takes a byte out of the
receive FIFO.

Blocks of the board lie where the settings say. A serial controller lies where somebody asked for a
console, with a rate that can be had, while there was none (`Asked`).
-/

namespace BringUp

/-! ### Documented accesses -/

/-- Accesses to the serial controller. -/
def Serial.accesses : List Access :=
  [.write .half 0x00, .write .byte 0x02, .write .half 0x04, .write .byte 0x06, .read .half 0x08,
    .write .half 0x08, .write .half 0x0C, .read .half 0x12, .write .half 0x12, .read .byte 0x14,
    .write .byte 0x14]

/-- The receive register is not among them. -/
theorem Serial.not_meets_receive :
    ∀ a ∈ Serial.accesses, ¬ a.Meets 0x0A 1 := by decide

namespace Board

open Firmware Serial

/-- Accesses to the clock generator. -/
def ClockGate.accesses : List Access :=
  [.write .word 0x584, .read .word 0x704, .write .word 0x884, .read .word 0xA04]

/-- Accesses to the pin controller. -/
def Pins.accesses : List Access :=
  [.write .word 0x3014, .write .word 0x458, .write .word 0x4D8, .read .byte 0x216,
    .write .byte 0x216, .read .byte 0x236, .write .byte 0x236]

/-- Accesses to the fuses. -/
def Fuse.accesses : List Access :=
  [.read .word 0x1178]

/-- Accesses to the second-level cache. -/
def SecondLevelCache.accesses : List Access :=
  [.read .word 0x8, .write .word 0x8]

/-- Accesses to a serial controller at an address. -/
def serialAccesses (base : UInt64) : List Access :=
  Serial.accesses.map (.shift base)

/-- Accesses to the other blocks of a board. -/
def boardAccesses (settings : Settings) : List Access :=
  ClockGate.accesses.map (.shift settings.clockBase) ++
    Pins.accesses.map (.shift settings.pinBase) ++
    Fuse.accesses.map (.shift settings.fuseBase) ++
    SecondLevelCache.accesses.map (.shift settings.cacheBase)

theorem not_meets_receive {base : UInt64} {a : Access} (h : a ∈ serialAccesses base) :
    ¬ a.Meets (base + 0x0A) 1 := by
  obtain ⟨a, ha, rfl⟩ := List.mem_map.1 h
  rw [Access.meets_shift_iff]
  exact Serial.not_meets_receive a ha

/-! ### Footprints -/

/-- The footprint of a block is listed if that of a block at address zero is. -/
theorem footprint_subset {base : UInt64} {layout : Layout} {reads writes : List UInt64}
    {listed : List Access}
    (h : ∀ a ∈ Block.footprint ⟨0, layout⟩ reads writes, a ∈ listed) :
    Block.footprint ⟨base, layout⟩ reads writes ⊆ listed.map (.shift base) := by
  rw [Block.footprint_eq_map_shift]
  exact List.map_subset _ h

theorem setup_subset (base : UInt64) : setup base ⊆ serialAccesses base :=
  footprint_subset (by decide)

theorem transmission_subset (base : UInt64) : transmission base ⊆ serialAccesses base :=
  footprint_subset (by decide)

theorem controlWrite_mem (base : UInt64) : .write .half (base + Offset.scr) ∈ serialAccesses base :=
  List.mem_map_of_mem (show .write .half Offset.scr ∈ Serial.accesses by decide)

theorem surroundings_subset (pl : Platform) : pl.surroundings ⊆ boardAccesses pl.settings := by
  have hgate : pl.clockGate.footprint ⊆ ClockGate.accesses.map (.shift pl.settings.clockBase) :=
    footprint_subset (by decide)
  have hfuses : pl.pins.fuseBlock.footprint [Fuse.device] [] ⊆
      Fuse.accesses.map (.shift pl.settings.fuseBase) := footprint_subset (by decide)
  have hpins : pl.pins.block.footprint [PinRoute.mode6, PinRoute.mode38] [Protection.offset,
      PinRoute.mode6, PinRoute.mode38, PinRoute.function6, PinRoute.function38] ⊆
      Pins.accesses.map (.shift pl.settings.pinBase) := footprint_subset (by decide)
  intro a ha
  simp only [boardAccesses, List.mem_append]
  rcases List.mem_append.1 ha with ha | ha
  · exact .inl (.inl (.inl (hgate ha)))
  · rcases List.mem_append.1 ha with ha | ha
    · exact .inl (.inr (hfuses ha))
    · exact .inl (.inl (.inr (hpins ha)))

theorem cache_subset (settings : Settings) :
    SecondLevelCache.footprint settings.cacheBase ⊆ boardAccesses settings := by
  have hcache : SecondLevelCache.footprint settings.cacheBase ⊆
      SecondLevelCache.accesses.map (.shift settings.cacheBase) := footprint_subset (by decide)
  exact List.subset_append_of_subset_right _ hcache

/-! ### Requests -/

variable {settings : Settings} {bank : CsrFile} {steps : List (Step Platform Request Answer)}
  {s : Step Platform Request Answer} {pl : Platform} {o : Opening} {p : Event → Prop} {base : UInt64}
  {m m' : Machine}

/-- A console was asked for at the address while there was none, with a rate that can be had. -/
def Asked (settings : Settings) (steps : List (Step Platform Request Answer)) (base : UInt64) :
    Prop :=
  ∃ s ∈ steps, s.before.console.isActive = false ∧ ∃ o line,
    s.request.opening? settings = some o ∧ o.base = base ∧ Line.of? o.base o.clock o.baud = .ok line

/-- The access belongs to a block of the board, or to a serial controller where a console was asked
for. -/
def Documented (settings : Settings) (steps : List (Step Platform Request Answer)) (a : Access) :
    Prop :=
  a ∈ boardAccesses settings ∨ ∃ base, Asked settings steps base ∧ a ∈ serialAccesses base

theorem Asked.append (h : Asked settings steps base) (more : List (Step Platform Request Answer)) :
    Asked settings (steps ++ more) base := by
  obtain ⟨s, hs, hasked⟩ := h
  exact ⟨s, List.mem_append_left _ hs, hasked⟩

/-- A request to open the console that is refused before the controller is tried does nothing. -/
theorem Opening.emits_act_of_refused
    (h : pl.console.isActive = true ∨ ∃ cause, Line.of? o.base o.clock o.baud = .error cause) :
    Emits p (o.act pl) := by
  refine emits_act_of ?_
  cases hactive : pl.console.isActive with
  | true =>
    rw [Platform.openConsoleAt_of_active hactive]
    exact .fail _
  | false =>
    obtain ⟨cause, hline⟩ := h.resolve_left (Bool.eq_false_iff.1 hactive)
    rw [Platform.openConsoleAt_of_error hactive hline]
    exact .fail _

/-- A console that was opened was asked for at a rate that can be had. -/
theorem line_of_opened (hmade : s.Made Platform.make m')
    (ho : s.request.opening? s.before.settings = some o) (hending : s.ending = o.ending (.ok ())) :
    ∃ line, Line.of? o.base o.clock o.baud = .ok line := by
  have hrun := hmade.run_eq
  rw [Platform.make, Request.act_of_opening? ho] at hrun
  rcases Opening.settling_eq_ok hrun with ⟨-, hopen⟩ | ⟨cause, hfailed, -⟩ | ⟨stop, -, hstop, -⟩
  · exact (Platform.openConsoleAt_eq_ok hopen).2.1
  · exact absurd hending
      (Opening.ending_ne_of_statusOf_ne hfailed (Failure.status_ne_success cause))
  · exact absurd (hending.symm.trans hstop) (o.ending_ok_ne_error stop)

section Made

variable (hmade : s.Made Platform.make m') (hsettings : s.before.settings = settings)
include hmade hsettings

/-- Opening the console accesses what is documented for the place where it was asked for. -/
theorem documented_of_opening (ho : s.request.opening? settings = some o) {e : Event}
    (he : e ∈ s.events) {a : Access} (ha : e.access? = some a) :
    Documented settings (steps ++ [s]) a := by
  have hact : s.request.act s.before = o.act s.before :=
    Request.act_of_opening? (by rw [hsettings]; exact ho)
  by_cases hrefused : s.before.console.isActive = true ∨
      ∃ cause, Line.of? o.base o.clock o.baud = .error cause
  · have hnone : Emits (fun _ ↦ False) (s.before.make s.request) := by
      rw [Platform.make, hact]
      exact .settling (Opening.emits_act_of_refused hrefused)
    exact ((hmade.leads hnone).2 e he).elim
  · obtain ⟨hinactive, hline⟩ := not_or.1 hrefused
    obtain ⟨line, hline⟩ : ∃ line, Line.of? o.base o.clock o.baud = .ok line := by
      cases h : Line.of? o.base o.clock o.baud with
      | ok line => exact ⟨line, rfl⟩
      | error cause => exact absurd ⟨cause, h⟩ hline
    have hasked : Asked settings (steps ++ [s]) o.base := ⟨s,
      List.mem_append_right _ (List.mem_singleton_self s), Bool.eq_false_iff.2 hinactive, o, line,
      ho, rfl, hline⟩
    have hemits : Emits (fun e ↦ ∀ a, e.access? = some a → Documented settings (steps ++ [s]) a)
        (s.before.make s.request) := by
      rw [Platform.make, hact]
      refine .settling (Opening.emits_act (fun e he a ha ↦ ?_) (fun e he a ha ↦ ?_)
        fun value a ha ↦ ?_)
      · exact .inl (hsettings ▸ surroundings_subset s.before (he.mem_of_access? ha))
      · exact .inr ⟨o.base, hasked, setup_subset _ (he.mem_of_access? ha)⟩
      · rw [← Option.some.inj ha]
        exact .inr ⟨o.base, hasked, controlWrite_mem _⟩
    exact (hmade.leads hemits).2 e he a ha

/-- **A request accesses what is documented**, if the console lies where one was asked for. -/
theorem documented_of_made
    (hconsole : ∀ ctrl, s.before.console.sink = some ctrl → Asked settings steps ctrl.line.base)
    {e : Event} (he : e ∈ s.events) {a : Access} (ha : e.access? = some a) :
    Documented settings (steps ++ [s]) a := by
  cases hrequest : s.request with
  | output o =>
    have hemits : Emits (fun e ↦ ∀ a, e.access? = some a → Documented settings (steps ++ [s]) a)
        (s.before.make s.request) := by
      rw [hrequest]
      refine .settling (Output.emits_act (fun ctrl hsink e he a ha ↦ ?_) o)
      exact .inr ⟨_, (hconsole ctrl hsink).append _, transmission_subset _ (he.mem_of_access? ha)⟩
    exact (hmade.leads hemits).2 e he a ha
  | hook hook =>
    cases ho : hook.opening? settings with
    | some o => exact documented_of_opening hmade hsettings (by rw [hrequest]; exact ho) he ha
    | none =>
      have hemits : Emits (fun e ↦ ∀ a, e.access? = some a → Documented settings (steps ++ [s]) a)
          (s.before.make s.request) := by
        rw [hrequest]
        refine .settling (Hook.emits_act (by rw [hsettings]; exact ho) (fun e he a ha ↦ ?_)
          fun e hquiet a ha ↦ ?_)
        · exact .inl (hsettings ▸ cache_subset _ (he.mem_of_access? ha))
        · cases e with
          | busRead => cases hquiet
          | busWrite => cases hquiet
          | _ => cases ha
      exact (hmade.leads hemits).2 e he a ha

end Made

/-! ### Sessions -/

/-- The console lies where one was asked for. -/
theorem asked_of_session (h : Session Platform.make { settings } bank steps pl m) :
    ∀ ctrl, pl.console.sink = some ctrl → Asked settings steps ctrl.line.base := by
  induction h with
  | start => exact nofun
  | elsewhere _ _ ih => exact ih
  | @call steps s m' hbefore hmade ih =>
    have hsettings := (active_iff_of_session hbefore).1
    intro ctrl hsink
    rcases (console_of_made hmade).2 with ⟨hinactive, o, ho, hending, hsucceeded⟩ | ⟨hconsole, -⟩
    · obtain ⟨line, hline⟩ := line_of_opened hmade ho hending
      obtain ⟨ctrl', hsink', -, hbase, -⟩ := hsucceeded.active
      obtain rfl : ctrl = ctrl' := Option.some.inj (hsink.symm.trans hsink')
      rw [hsettings] at ho
      exact ⟨s, List.mem_append_right _ (List.mem_singleton_self s), hinactive, o, line, ho,
        hbase.symm, hline⟩
    · exact (ih ctrl (hconsole ▸ hsink)).append _

/-- **The firmware touches documented registers only**, each in its documented width. Let anything be
asked of a fresh platform, in any order and under any devices. Every bus access of a request is
listed for a block of the board, or for a serial controller where a console had been asked for; and
then it does not reach the receive register there. So a receive register that shares no byte with
the other blocks, nor with another controller that was asked for, is never accessed. -/
theorem accesses_documented {before later : List (Step Platform Request Answer)}
    (h : Session Platform.make { settings } bank (before ++ s :: later) pl m) :
    (∀ e ∈ s.events, ∀ a, e.access? = some a → a ∈ boardAccesses settings ∨
      ∃ base, Asked settings (before ++ [s]) base ∧ a ∈ serialAccesses base ∧
        ¬ a.Meets (base + 0x0A) 1) ∧
    ∀ base, (∀ a ∈ boardAccesses settings, ¬ a.Meets (base + 0x0A) 1) →
      (∀ other, Asked settings (before ++ [s]) other → other ≠ base →
        ∀ a ∈ serialAccesses other, ¬ a.Meets (base + 0x0A) 1) →
      ∀ e ∈ s.events, e.Avoids (base + 0x0A) 1 := by
  obtain ⟨m', hbefore, hmade, -⟩ := h.made
  have hsettings := (active_iff_of_session hbefore).1
  have hdocumented : ∀ e ∈ s.events, ∀ a, e.access? = some a →
      Documented settings (before ++ [s]) a := fun e he a ha ↦
    documented_of_made hmade hsettings (asked_of_session hbefore) he ha
  refine ⟨fun e he a ha ↦ ?_, fun base hboard hother e he a ha ↦ ?_⟩
  · refine (hdocumented e he a ha).imp id ?_
    rintro ⟨base, hasked, hmem⟩
    exact ⟨base, hasked, hmem, not_meets_receive hmem⟩
  · rcases hdocumented e he a ha with hmem | ⟨other, hasked, hmem⟩
    · exact hboard a hmem
    · by_cases hbase : other = base
      · rw [← hbase]
        exact not_meets_receive hmem
      · exact hother other hasked hbase a hmem

/-- On the evaluation board the console is opened: the last access switches the controller on, and
the receive register was not accessed. -/
theorem accesses_documented_opening :
    ∃ (s : Step Platform Request Answer) (pl : Platform) (m : Machine),
      Session Platform.make { settings := {} } .zero ([] ++ s :: []) pl m ∧
      s.request = .hook .openConsole ∧ controlWrite 0x1004B800 0x30 ∈ s.events ∧
      .write .half (0x1004B800 + 0x04) ∈ serialAccesses 0x1004B800 ∧
      ∀ e ∈ s.events, e.Avoids (0x1004B800 + 0x0A) 1 := by
  obtain ⟨pl, m, hopen, -⟩ := openConsole_readyMachine
  obtain ⟨-, -, -, es, hes, hsucceeded⟩ := Platform.openConsoleAt_eq_ok
    (o := ⟨0x1004B800, 100000000, 115200, false⟩) hopen
  let s : Step Platform Request Answer :=
    ⟨.hook .openConsole, { settings := {} }, readyMachine, .ok .done, pl, es⟩
  have hmade : s.Made Platform.make m := ⟨make_openConsole_of_ok hopen, hes.trace_eq⟩
  have hsession : Session Platform.make { settings := {} } .zero ([] ++ s :: []) pl m :=
    .call (.start rfl) hmade
  have hboard : ∀ a ∈ boardAccesses {}, ¬ a.Meets (0x1004B800 + 0x0A) 1 := by decide
  have hasked : ∀ other, Asked {} ([] ++ [s]) other → other = 0x1004B800 := by
    rintro other ⟨s', hs', -, o, line, ho, rfl, -⟩
    rw [List.nil_append, List.mem_singleton] at hs'
    subst hs'
    cases ho
    rfl
  have hswitched : controlWrite 0x1004B800 0x30 ∈ es := by
    obtain ⟨front, hfront⟩ := hsucceeded.switched_last
    refine (List.mem_filter.1 (?_ : _ ∈ es.filter Event.isBus)).1
    rw [hfront]
    exact List.mem_append_right _ (List.mem_cons_of_mem _ (List.mem_singleton_self _))
  obtain ⟨hlisted, hreceive⟩ := accesses_documented hsession
  refine ⟨s, pl, m, hsession, rfl, hswitched, ?_, ?_⟩
  · -- the access is not listed for another block, so it is for the controller
    rcases hlisted _ hswitched _ rfl with hmem | ⟨base, hbase, hmem, -⟩
    · exact absurd hmem (by decide)
    · obtain rfl := hasked base hbase
      exact hmem
  · exact hreceive 0x1004B800 hboard fun other hother hne ↦ absurd (hasked other hother) hne

end Board

end BringUp
