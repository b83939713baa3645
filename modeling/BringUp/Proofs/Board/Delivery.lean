import BringUp.Proofs.Board.Opening

/-!
# Delivery of console bytes

What is written to the console reaches the transmit register, each byte once and in order, and
nothing else does. Three things are put together for this: which bytes an output comes to
(`Output.bytes`), that the controller in the console is enabled, and what an enabled controller
writes when it sends. A session adds up what its requests sent (`written_eq_sent`); attempts to open
the console, hooks and vendor calls in between add nothing, because neither clock, pins nor cache
share a register with the controller.
-/

namespace BringUp.Board

open Firmware Serial

variable {settings : Settings} {bank : CsrFile} {steps : List (Step Platform Request Answer)}
  {s : Step Platform Request Answer} {pl : Platform} {ctrl : Controller} {o : Output} {base : UInt64}
  {m m' : Machine}

/-! ### What a request sent -/

/-- The bytes that a request sent that found the platform `pl`: those of an output if a console was
active. A byte that was to be sent within a deadline counts if it was sent. -/
def Request.sent (pl : Platform) (ending : Except Stop Answer) : Request → List UInt8
  | .hook _ => []
  | .output (.trySend _ b) => if pl.console.isActive ∧ ending.isOk then [b] else []
  | .output o => if pl.console.isActive then o.bytes else []

/-- The bytes that were sent in a step. -/
def sent (s : Step Platform Request Answer) : List UInt8 :=
  s.request.sent s.before s.ending

theorem sent_of_inactive (hinactive : s.before.console.isActive = false) : sent s = [] := by
  rw [sent]
  rcases s.request with h | (_ | _ | _ | _ | _ | _)
  · rfl
  all_goals simp [Request.sent, hinactive]

theorem sent_of_output (hactive : s.before.console.isActive = true) (ho : s.request = .output o)
    (hok : s.ending.isOk) : sent s = o.bytes := by
  rw [sent, ho]
  cases o <;> simp [Request.sent, Output.bytes, hactive, hok]

/-! ### Steps -/

/-- Without a console nothing is done to write to it. -/
theorem events_of_inactive (hmade : s.Made Platform.make m') (ho : s.request = .output o)
    (hinactive : s.before.console.isActive = false) : s.events = [] := by
  have hrun := hmade.run_eq
  rw [ho] at hrun
  have hnone : s.before.console.sink = none := by
    rw [← Option.not_isSome_iff_eq_none]
    exact Bool.eq_false_iff.1 hinactive
  obtain ⟨answer, hact⟩ := Output.act_of_inactive hnone o
  have hpure : Request.act s.before (.output o) s.machine = .ok (answer, s.before) s.machine := by
    show o.act s.before s.machine = _
    rw [hact]
    rfl
  exact hmade.events_eq_nil (EStateM.Result.ok.inj (hrun.symm.trans (settling_of_ok hpure))).2

/-- **An output is written to the transmit register** of the controller in the console. -/
theorem written_of_output (hmade : s.Made Platform.make m') (hreturned : s.Returned)
    (ho : s.request = .output o) (hsink : s.before.console.sink = some ctrl)
    (henabled : ctrl.phase = .enabled) :
    written (ctrl.line.base + Offset.ftdr) s.events = (sent s).map UInt8.toUInt32 := by
  obtain ⟨hes, -⟩ := hmade.leads (emits_make _ _)
  have hactive : s.before.console.isActive = true := by
    rw [Console.isActive, hsink, Option.isSome_some]
  have hrun := hmade.run_eq
  rw [ho] at hrun
  replace hrun : settling s.before (o.act s.before) s.machine = .ok (s.ending, s.after) m' := hrun
  rcases Output.act_of_active hsink o with ⟨answer, hact⟩ | ⟨deadline, b, rfl, hact⟩
  · rw [hact] at hrun
    rcases settling_eq_ok hrun with ⟨_, hending, hsend⟩ | ⟨stop, hending, -, hsend⟩
    · obtain ⟨ctrl', m₁, hput, hpure⟩ := bind_eq_ok_iff.1 hsend
      obtain ⟨-, rfl⟩ := pure_eq_ok_iff.1 hpure
      rw [sent_of_output hactive ho (by rw [hending]; rfl)]
      exact Controller.written_of_putAll_eq_ok henabled hput hes
    · -- sending without a deadline does not fail
      obtain ⟨cause, rfl⟩ := hreturned.of_error hending
      rcases bind_eq_error_iff.1 hsend with hput | ⟨_, _, -, hpure⟩
      · exact absurd hput Controller.putAll_ne_failure
      · cases hpure
  · rw [hact] at hrun
    rcases settling_eq_ok hrun with ⟨_, hending, hsend⟩ | ⟨stop, hending, -, hsend⟩
    · obtain ⟨_, m₁, htry, hpure⟩ := bind_eq_ok_iff.1 hsend
      obtain ⟨-, rfl⟩ := pure_eq_ok_iff.1 hpure
      rw [sent_of_output hactive ho (by rw [hending]; rfl)]
      exact Controller.written_of_trySend_eq_ok henabled htry hes
    · obtain ⟨cause, rfl⟩ := hreturned.of_error hending
      have hnone : sent s = [] := by
        rw [sent, ho, Request.sent, hending]
        exact if_neg (by rintro ⟨-, ⟨⟩⟩)
      rw [hnone]
      rcases bind_eq_error_iff.1 hsend with htry | ⟨_, _, -, hpure⟩
      · exact Controller.written_of_trySend_eq_failure henabled htry hes
      · cases hpure

/-- What a platform accesses beside the serial controller: clock generator, pins and fuses, and the
second-level cache. -/
def Platform.otherBlocks (pl : Platform) : List Access :=
  pl.surroundings ++ SecondLevelCache.footprint pl.settings.cacheBase

/-- The transmit register of a block that is apart is not written within a footprint. -/
theorem writtenTo?_ftdr_of_within {e : Event} {footprint : List Access} (h : e.Within footprint)
    (hapart : ∀ a ∈ footprint, ¬ a.Meets base blockSize) :
    e.writtenTo? (base + Offset.ftdr) = none :=
  (h.avoids hapart).writtenTo?_eq_none (by decide)

/-- A request that neither opens the console nor writes to it writes no transmit register that is
apart from the other blocks. -/
theorem written_of_hook {hook : Hook} (hmade : s.Made Platform.make m')
    (hrequest : s.request = .hook hook) (hopening : hook.opening? s.before.settings = none)
    (hapart : ∀ a ∈ s.before.otherBlocks, ¬ a.Meets base blockSize) :
    written (base + Offset.ftdr) s.events = [] := by
  have hemits : Emits (fun e ↦ e.writtenTo? (base + Offset.ftdr) = none)
      (s.before.make s.request) := by
    rw [hrequest]
    refine .settling (Hook.emits_act hopening (fun e he ↦ ?_) fun e he ↦ ?_)
    · exact writtenTo?_ftdr_of_within he (List.forall_mem_append.1 hapart).2
    · exact Event.writtenTo?_of_isBus_eq_false he _
  exact written_eq_nil (hmade.leads hemits).2

/-- Nor does one that opens the console, at the place of the controller or without success. -/
theorem written_of_opening {p : Opening} (hmade : s.Made Platform.make m') (hreturned : s.Returned)
    (hopening : s.request.opening? s.before.settings = some p)
    (hbase : ∀ ctrl, s.after.console.sink = some ctrl → ctrl.line.base = base)
    (hapart : ∀ a ∈ s.before.otherBlocks, ¬ a.Meets base blockSize) :
    written (base + Offset.ftdr) s.events = [] := by
  have hsurroundings := (List.forall_mem_append.1 hapart).1
  have hspecified := Opening.specified_of_made hmade hreturned hopening
  by_cases hrefused : s.ending = p.ending (.error .alreadyUp) ∨
      s.ending = p.ending (.error (.badRate p.clock p.baud))
  · rw [hspecified.refused hrefused]
    rfl
  · obtain ⟨hup, hrate⟩ := not_or.1 hrefused
    rcases hspecified.answered hup hrate with hok | ⟨what, waited, htimeout⟩
    · obtain ⟨ctrl, hsink, -, hplace, -⟩ := (hspecified.succeeded hok).active
      have hemits : Emits (fun e ↦ e.writtenTo? (base + Offset.ftdr) = none)
          (s.before.make s.request) := by
        rw [Platform.make, Request.act_of_opening? hopening]
        refine .settling (Opening.emits_act (fun e he ↦ ?_) (fun e he ↦ ?_) fun value ↦ ?_)
        · exact writtenTo?_ftdr_of_within he hsurroundings
        · rw [← hplace, hbase ctrl hsink] at he
          exact he.writtenTo?_eq_none fun w hmem ↦
            absurd (Block.offset_mem_of_write_mem hmem) (by decide)
        · rw [← hplace, hbase ctrl hsink, controlWrite, Event.writtenTo?_busWrite_add,
            if_neg (by decide)]
      exact written_eq_nil (hmade.leads hemits).2
    · exact written_eq_nil fun e he ↦ writtenTo?_ftdr_of_within
        ((hspecified.timedOut what waited htimeout).2 e he)
        (List.forall_mem_append.1 hsurroundings).1

/-- A controller that is the console stays it. -/
theorem sink_of_made (hmade : s.Made Platform.make m') (hsink : s.before.console.sink = some ctrl) :
    s.after.console.sink = some ctrl := by
  rcases (console_of_made hmade).2 with ⟨hinactive, -⟩ | ⟨hconsole, -⟩
  · rw [Console.isActive, hsink] at hinactive
    cases hinactive
  · rw [hconsole, hsink]

/-- A controller becomes the console once it is enabled. -/
theorem enabled_of_made (hmade : s.Made Platform.make m')
    (henabled : ∀ ctrl, s.before.console.sink = some ctrl → ctrl.phase = .enabled)
    (hsink : s.after.console.sink = some ctrl) : ctrl.phase = .enabled := by
  rcases (console_of_made hmade).2 with ⟨-, o, -, -, hsucceeded⟩ | ⟨hconsole, -⟩
  · obtain ⟨ctrl', hsink', hphase, -⟩ := hsucceeded.active
    obtain rfl : ctrl = ctrl' := Option.some.inj (hsink.symm.trans hsink')
    exact hphase
  · exact henabled ctrl (hconsole ▸ hsink)

/-- **What one request writes to the transmit register**: the bytes that it sends. -/
theorem written_of_made (hmade : s.Made Platform.make m') (hreturned : s.Returned)
    (henabled : ∀ ctrl, s.before.console.sink = some ctrl → ctrl.phase = .enabled)
    (hbase : ∀ ctrl, s.after.console.sink = some ctrl → ctrl.line.base = base)
    (hapart : ∀ a ∈ s.before.otherBlocks, ¬ a.Meets base blockSize) :
    written (base + Offset.ftdr) s.events = (sent s).map UInt8.toUInt32 := by
  cases hrequest : s.request with
  | output o =>
    cases hsink : s.before.console.sink with
    | none =>
      have hinactive : s.before.console.isActive = false := by rw [Console.isActive, hsink]; rfl
      rw [events_of_inactive hmade hrequest hinactive, sent_of_inactive hinactive]
      rfl
    | some ctrl =>
      rw [← hbase ctrl (sink_of_made hmade hsink)]
      exact written_of_output hmade hreturned hrequest hsink (henabled ctrl hsink)
  | hook hook =>
    have hnone : sent s = [] := by rw [sent, hrequest]; rfl
    rw [hnone]
    cases hopening : hook.opening? s.before.settings with
    | none => exact written_of_hook hmade hrequest hopening hapart
    | some p =>
      exact written_of_opening hmade hreturned (by rw [hrequest]; exact hopening) hbase hapart

/-! ### Outputs that are answered -/

/-- Bytes that the controller sends are written, whatever is asked for to write them. -/
theorem make_output_of_putAll (hsink : pl.console.sink = some ctrl)
    (ho : ∀ deadline b, o ≠ .trySend deadline b) {ctrl' : Controller}
    (hput : Sink.putAll ctrl o.bytes m = .ok ctrl' m') :
    ∃ answer, pl.make (.output o) m = .ok (.ok answer, pl) m' := by
  obtain ⟨answer, hact⟩ | ⟨deadline, b, hsend, -⟩ := Output.act_of_active hsink o
  · have hrun := (congrFun hact m).trans (bind_of_ok hput)
    rw [Controller.putAll_eq_ok hput, ← hsink] at hrun
    exact ⟨answer, settling_of_ok hrun⟩
  · exact absurd hsend (ho deadline b)

/-- So is one that it sends before the deadline. -/
theorem make_trySend_of_ok (hsink : pl.console.sink = some ctrl) {deadline : Deadline} {b : UInt8}
    (hsend : ctrl.trySend deadline b m = .ok () m') :
    pl.make (.output (.trySend deadline b)) m = .ok (.ok .done, pl) m' :=
  settling_of_ok
    ((congrFun (Output.act_trySend_of_active hsink deadline b) m).trans (bind_of_ok hsend))

/-! ### Sessions -/

theorem enabled_of_session (h : Session Platform.make { settings } bank steps pl m) :
    ∀ ctrl, pl.console.sink = some ctrl → ctrl.phase = .enabled := by
  induction h with
  | start => exact nofun
  | elsewhere _ _ ih => exact ih
  | call _ hmade ih => exact fun ctrl ↦ enabled_of_made hmade ih

/-- **Console bytes reach the transmitter, each once and in order.** Whatever is asked of a platform,
if every request is answered and the controller shares no register with the other blocks: the
transmit register was written with the bytes that the requests sent, one after the other, and while
no console is active nothing at all is done to write to one. -/
theorem written_eq_sent (h : Session Platform.make { settings } bank steps pl m)
    (hreturned : ∀ s ∈ steps, s.Returned)
    (hbase : ∀ ctrl, pl.console.sink = some ctrl → ctrl.line.base = base)
    (hapart : ∀ a ∈ Platform.otherBlocks { settings }, ¬ a.Meets base blockSize) :
    written (base + Offset.ftdr) (history steps) = (steps.flatMap sent).map UInt8.toUInt32 ∧
      ∀ s ∈ steps, ∀ o, s.request = .output o → s.before.console.isActive = false →
        s.events = [] := by
  induction h with
  | start => exact ⟨rfl, by simp⟩
  | elsewhere _ _ ih => exact ih hreturned hbase
  | @call steps s m' h hmade ih =>
    obtain ⟨hfront, hlatest⟩ := List.forall_mem_append.1 hreturned
    obtain ⟨hwritten, hidle⟩ := ih hfront fun ctrl hsink ↦ hbase ctrl (sink_of_made hmade hsink)
    have hblocks : ∀ a ∈ s.before.otherBlocks, ¬ a.Meets base blockSize := by
      rw [← (active_iff_of_session h).1] at hapart
      exact hapart
    have hstep := written_of_made hmade (List.forall_mem_singleton.1 hlatest) (enabled_of_session h)
      hbase hblocks
    refine ⟨?_, List.forall_mem_append.2 ⟨hidle, List.forall_mem_singleton.2 ?_⟩⟩
    · rw [history_append, history_singleton, written_append, hwritten, hstep, List.flatMap_append,
        List.map_append, List.flatMap_singleton]
    · exact fun o ho ↦ events_of_inactive hmade ho

/-- A byte before the console is opened, then a line and one more byte, with an attempt to open the
console again in between. -/
def lineRequests : List Request :=
  [.output (.byte 0x7A), .hook .openConsole, .output (.text "a\n"), .hook .openConsoleStatus,
    .output (.trySend (.after 5) 0x62)]

/-- On a board that is ready all of them are answered, and what they send is known. -/
theorem exists_line_session :
    ∃ (steps : List (Step Platform Request Answer)) (pl : Platform) (m : Machine),
      Session Platform.make { settings := {} } .zero steps pl m ∧
      steps.map Step.request = lineRequests ∧ (∀ s ∈ steps, s.Returned) ∧
      (∀ ctrl, pl.console.sink = some ctrl → ctrl.line.base = 0x1004B800) ∧
      steps.flatMap sent = [0x61, 0x0D, 0x0A, 0x62] := by
  let fresh : Platform := { settings := {} }
  obtain ⟨pl, m, hopen, ctrl, hsink, hbase, ctrl', m₁, m₂, hput, htry⟩ := openConsole_readyMachine
  have hactive : pl.console.isActive = true := by rw [Console.isActive, hsink, Option.isSome_some]
  have htext : Output.bytes (.text "a\n") = [0x61, 0x0D, 0x0A] := by
    rw [Output.bytes, toList_toUTF8]
    rfl
  have htext_ne (deadline : Deadline) (b : UInt8) : Output.text "a\n" ≠ .trySend deadline b := by
    simp
  -- the five requests, one after the other
  have hfirst : fresh.make (.output (.byte 0x7A)) readyMachine =
      .ok (.ok .done, fresh) readyMachine := rfl
  have hsecond : fresh.make (.hook .openConsole) readyMachine = .ok (.ok .done, pl) m :=
    make_openConsole_of_ok hopen
  obtain ⟨answer, hthird⟩ := make_output_of_putAll hsink htext_ne (htext ▸ hput)
  have hfourth : pl.make (.hook .openConsoleStatus) m₁ = .ok (.ok (.status (-6)), pl) m₁ :=
    make_openConsoleStatus_of_active hactive m₁
  have hfifth : pl.make (.output (.trySend (.after 5) 0x62)) m₁ = .ok (.ok .done, pl) m₂ :=
    make_trySend_of_ok hsink htry
  have hstart : Session Platform.make fresh .zero [] fresh readyMachine := .start rfl
  obtain ⟨es₁, h₁⟩ := hstart.extend _ (emits_make _ _) hfirst
  obtain ⟨es₂, h₂⟩ := h₁.extend _ (emits_make _ _) hsecond
  obtain ⟨es₃, h₃⟩ := h₂.extend _ (emits_make _ _) hthird
  obtain ⟨es₄, h₄⟩ := h₃.extend _ (emits_make _ _) hfourth
  obtain ⟨es₅, h₅⟩ := h₄.extend _ (emits_make _ _) hfifth
  have hline : sent ⟨.output (.text "a\n"), pl, m, .ok answer, pl, es₃⟩ = [0x61, 0x0D, 0x0A] :=
    (sent_of_output hactive rfl rfl).trans htext
  have hbyte : sent ⟨.output (.trySend (.after 5) 0x62), pl, m₁, .ok .done, pl, es₅⟩ = [0x62] :=
    sent_of_output (o := .trySend (.after 5) 0x62) hactive rfl rfl
  refine ⟨_, pl, m₂, h₅, rfl, by simp [Step.Returned], fun opened hopened ↦ ?_, ?_⟩
  · obtain rfl : opened = ctrl := Option.some.inj (hopened.symm.trans hsink)
    exact hbase
  · simp only [List.nil_append, List.cons_append, List.flatMap_cons, List.flatMap_nil, hline, hbyte]
    rfl

/-- The first byte is dropped, the others go out. -/
theorem written_eq_sent_line :
    ∃ (steps : List (Step Platform Request Answer)) (pl : Platform) (m : Machine),
      Session Platform.make { settings := {} } .zero steps pl m ∧
      steps.map Step.request = lineRequests ∧
      (∀ s ∈ steps, s.Returned) ∧
      (∀ ctrl, pl.console.sink = some ctrl → ctrl.line.base = 0x1004B800) ∧
      (∀ a ∈ Platform.otherBlocks { settings := {} }, ¬ a.Meets 0x1004B800 blockSize) ∧
      written (0x1004B800 + Offset.ftdr) (history steps) = [0x61, 0x0D, 0x0A, 0x62] := by
  obtain ⟨steps, pl, m, hsession, hrequests, hreturned, hplace, hsent⟩ := exists_line_session
  have hapart : ∀ a ∈ Platform.otherBlocks { settings := {} }, ¬ a.Meets 0x1004B800 blockSize := by
    decide
  have hwritten := (written_eq_sent hsession hreturned hplace hapart).1
  rw [hsent] at hwritten
  exact ⟨steps, pl, m, hsession, hrequests, hreturned, hplace, hapart, hwritten⟩

end BringUp.Board
