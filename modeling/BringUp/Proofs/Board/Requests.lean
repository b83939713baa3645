import BringUp.Proofs.Board.Hooks
import BringUp.Proofs.Console.Writer
import BringUp.Proofs.Machine.Session
import BringUp.Proofs.Serial.Output

/-!
# Requests to a platform

Everything that can be asked of a platform, with what it answers: the hooks and vendor calls, and
the ways to write to its console. `Platform.make` carries out a request; one that stops leaves the
platform as it was. Runs of requests are sessions over it.

Writing to the console sends bytes through the controller in the slot and leaves the platform as it
is; without a console it does nothing (`Output.act_of_inactive`, `Output.act_of_active`).
-/

namespace BringUp.Board

open Firmware Pma Serial

/-! ### Writing to the console -/

/-- A way to write to the console. -/
inductive Output
  /-- One byte as it is. -/
  | byte (b : UInt8)
  /-- A text. -/
  | text (text : String)
  /-- One character. -/
  | char (c : Char)
  /-- A buffer, whose length is told. -/
  | buffer (bytes : List UInt8)
  /-- A buffer, until nothing is left of it. -/
  | all (bytes : List UInt8)
  /-- One byte as it is, unless that takes too long. -/
  | trySend (deadline : Deadline) (b : UInt8)

/-- What a request hands back. -/
inductive Answer
  /-- It was done. -/
  | done
  /-- It was done or not, as the status code tells. -/
  | status (code : Int)
  /-- The reply to a vendor call. -/
  | reply (r : Vendor.Reply)
  /-- So many bytes were taken. -/
  | taken (n : Nat)
  /-- There is no console to write to. -/
  | absent

/-- Does something with the controller that is the console, if there is one. -/
def Platform.useConsole (pl : Platform) (use : Controller → Firmware (Answer × Controller)) :
    Firmware (Answer × Platform) := do
  let (answer?, console) ← pl.console.withSink use
  return (answer?.getD .absent, { pl with console })

theorem Platform.useConsole_of_active {pl : Platform} {ctrl : Controller}
    (h : pl.console.sink = some ctrl) (use : Controller → Firmware (Answer × Controller)) :
    pl.useConsole use = do
      let r ← use ctrl
      return (r.1, { pl with console := ⟨some r.2⟩ }) := by
  simp only [useConsole, Console.withSink, h, bind_assoc, pure_bind, Option.getD_some]

namespace Output

/-- Writes to the console. -/
def act (pl : Platform) : Output → Firmware (Answer × Platform)
  | byte b => return (.done, { pl with console := ← pl.console.putByte b })
  | text s => pl.useConsole fun ctrl ↦ return (.done, ← Sink.writeText ctrl s)
  | char c => pl.useConsole fun ctrl ↦ return (.done, ← Sink.writeText ctrl c.toString)
  | buffer bytes => pl.useConsole fun ctrl ↦ do
    let (n, ctrl) ← Sink.writeBuffer ctrl bytes
    return (.taken n, ctrl)
  | all bytes => pl.useConsole fun ctrl ↦ return (.done, ← Sink.writeAll ctrl bytes)
  | trySend deadline b => pl.useConsole fun ctrl ↦ do
    ctrl.trySend deadline b
    return (.done, ctrl)

/-- The bytes that go out, if the output does not give up. -/
def bytes : Output → List UInt8
  | byte b | trySend _ b => [b]
  | text s => Newline.forTerminal s.toUTF8.toList
  | char c => Newline.forTerminal c.toString.toUTF8.toList
  | buffer bytes | all bytes => Newline.forTerminal bytes

variable {pl pl' : Platform} {o : Output} {ctrl : Controller} {answer : Answer} {m m' : Machine}
  {p : Event → Prop}

/-- Without a console there is nothing to write to. -/
theorem act_of_inactive (h : pl.console.sink = none) (o : Output) :
    ∃ answer, act pl o = pure (answer, pl) := by
  obtain ⟨settings, ⟨_⟩, regions⟩ := pl
  cases h
  cases o with
  | byte b => exact ⟨.done, rfl⟩
  | _ => exact ⟨.absent, rfl⟩

/-- With a console, a byte is tried to be sent through its controller. -/
theorem act_trySend_of_active (h : pl.console.sink = some ctrl) (deadline : Deadline) (b : UInt8) :
    act pl (.trySend deadline b) = do
      ctrl.trySend deadline b
      return (.done, pl) := by
  have hsame : { pl with console := ⟨some ctrl⟩ } = pl := by rw [← h]
  simp only [act, Platform.useConsole_of_active h, hsame, bind_assoc, pure_bind]

/-- All other bytes are sent through it. -/
theorem act_of_active (h : pl.console.sink = some ctrl) (o : Output) :
    (∃ answer, act pl o = do
        let ctrl ← Sink.putAll ctrl o.bytes
        return (answer, { pl with console := ⟨some ctrl⟩ })) ∨
      ∃ deadline b, o = trySend deadline b ∧ act pl o = do
        ctrl.trySend deadline b
        return (.done, pl) := by
  cases o with
  | byte b =>
    refine .inl ⟨.done, ?_⟩
    simp only [act, bytes, Controller.putAll_singleton, Console.putByte, h, bind_assoc, pure_bind]
  | text s =>
    refine .inl ⟨.done, ?_⟩
    simp only [act, Platform.useConsole_of_active h, bytes, Sink.writeText, Sink.write_eq,
      bind_assoc, pure_bind]
  | char c =>
    refine .inl ⟨.done, ?_⟩
    simp only [act, Platform.useConsole_of_active h, bytes, Sink.writeText, Sink.write_eq,
      bind_assoc, pure_bind]
  | buffer bs =>
    refine .inl ⟨.taken bs.length, ?_⟩
    simp only [act, Platform.useConsole_of_active h, bytes, Sink.writeBuffer, Sink.write_eq,
      bind_assoc, pure_bind]
  | all bs =>
    refine .inl ⟨.done, ?_⟩
    simp only [act, Platform.useConsole_of_active h, bytes, Sink.writeAll_eq, Sink.write_eq,
      bind_assoc, pure_bind]
  | trySend deadline b => exact .inr ⟨deadline, b, rfl, act_trySend_of_active h deadline b⟩

/-- Writing accesses nothing but the registers for sending. -/
theorem emits_act (hp : ∀ ctrl, pl.console.sink = some ctrl →
    ∀ e : Event, e.Within (transmission ctrl.line.base) → p e) (o : Output) :
    Emits p (act pl o) := by
  rcases hsink : pl.console.sink with - | ctrl
  · obtain ⟨answer, hact⟩ := act_of_inactive hsink o
    rw [hact]
    exact .pure _
  · have hctrl := hp ctrl hsink
    rcases act_of_active hsink o with ⟨answer, hact⟩ | ⟨deadline, b, -, hact⟩
    · rw [hact]
      exact .bind (Controller.emits_putAll hctrl _) fun _ ↦ .pure _
    · rw [hact]
      exact .bind (Controller.emits_trySend_of fun e he _ ↦ hctrl e he) fun _ ↦ .pure _

/-- Writing leaves the platform as it is. -/
theorem eq_of_act (h : act pl o m = .ok (answer, pl') m') : pl' = pl := by
  rcases hsink : pl.console.sink with - | ctrl
  · obtain ⟨answer, hact⟩ := act_of_inactive hsink o
    rw [hact] at h
    exact (Prod.mk.inj (EStateM.Result.ok.inj h).1).2.symm
  · rcases act_of_active hsink o with ⟨answer, hact⟩ | ⟨deadline, b, -, hact⟩
    · rw [hact] at h
      obtain ⟨ctrl', m₁, hput, hpure⟩ := bind_eq_ok_iff.1 h
      obtain rfl := Controller.putAll_eq_ok hput
      rw [← (Prod.mk.inj (EStateM.Result.ok.inj hpure).1).2, ← hsink]
    · rw [hact] at h
      obtain ⟨_, m₁, -, hpure⟩ := bind_eq_ok_iff.1 h
      exact (Prod.mk.inj (EStateM.Result.ok.inj hpure).1).2.symm

end Output

/-! ### Calling hooks -/

/-- Calls a hook. -/
def Hook.act (pl : Platform) : Hook → Firmware (Answer × Platform)
  | beginBoot cold => do
    pl.beginBoot cold
    return (.done, pl)
  | openConsole => return (.done, ← pl.openConsole)
  | openConsoleStatus => do
    let (code, pl) ← pl.status pl.openConsole
    return (.status code, pl)
  | openConsoleAt base clock baud => return (.done, ← pl.openConsoleAt base clock baud)
  | openConsoleAtStatus base clock baud => do
    let (code, pl) ← pl.status (pl.openConsoleAt base clock baud)
    return (.status code, pl)
  | finishBoot cold => return (.done, ← pl.finishBoot cold)
  | call c => do
    let (reply, pl) ← pl.call c.extension c.function c.args
    return (.reply reply, pl)

/-- Without the answer, that is the call and the platform afterwards. -/
theorem Hook.run_eq (hook : Hook) (pl : Platform) :
    hook.run pl = do return (← hook.act pl).2 := by
  cases hook <;> simp only [run, act, bind_assoc, pure_bind, bind_pure]

/-- What is asked for when the console is to be opened. -/
structure Opening where
  /-- Place of the controller. -/
  base : UInt64
  /-- Its input clock. -/
  clock : UInt64
  /-- Its rate. -/
  baud : UInt32
  /-- Whether the outcome comes as a status code. -/
  coded : Bool

/-- How a hook opens the console, if it does. -/
def Hook.opening? (settings : Settings) : Hook → Option Opening
  | openConsole => some ⟨settings.serialBase, settings.serialClock, settings.baud, false⟩
  | openConsoleStatus => some ⟨settings.serialBase, settings.serialClock, settings.baud, true⟩
  | openConsoleAt base clock baud => some ⟨base, clock, baud, false⟩
  | openConsoleAtStatus base clock baud => some ⟨base, clock, baud, true⟩
  | _ => none

namespace Opening

/-- Opens the console. -/
def act (pl : Platform) (o : Opening) : Firmware (Answer × Platform) :=
  if o.coded then do
    let (code, pl) ← pl.status (pl.openConsoleAt o.base o.clock o.baud)
    return (.status code, pl)
  else
    return (.done, ← pl.openConsoleAt o.base o.clock o.baud)

/-- How the caller is told an outcome. -/
def ending (o : Opening) (outcome : Except Failure Unit) : Except Stop Answer :=
  if o.coded then .ok (.status (statusOf outcome))
  else match outcome with
    | .ok _ => .ok .done
    | .error cause => .error (.failure cause)

/-- Outcomes that are told in the same way have the same status code. -/
theorem statusOf_eq_of_ending_eq {o : Opening} {r r' : Except Failure Unit}
    (h : o.ending r = o.ending r') : statusOf r = statusOf r' := by
  obtain ⟨base, clock, baud, coded⟩ := o
  cases coded with
  | true => exact Answer.status.inj (Except.ok.inj h)
  | false =>
    rcases r with cause | _ <;> rcases r' with cause' | _ <;> cases h <;> rfl

theorem ending_ok_ne_error (o : Opening) (stop : Stop) : o.ending (.ok ()) ≠ .error stop := by
  obtain ⟨base, clock, baud, coded⟩ := o
  cases coded <;> exact nofun

end Opening

variable {pl pl' : Platform} {hook : Hook} {o : Opening} {answer : Answer} {ending : Except Stop Answer}
  {m m' : Machine} {p : Event → Prop}

theorem Hook.act_of_opening? (h : hook.opening? pl.settings = some o) : hook.act pl = o.act pl := by
  cases hook with
  | openConsole | openConsoleStatus | openConsoleAt | openConsoleAtStatus =>
    cases h
    rfl
  | _ => cases h

/-- A hook that does not open the console leaves console and settings as they are. -/
theorem Hook.keeps_console (h : hook.opening? pl.settings = none)
    (hrun : hook.act pl m = .ok (answer, pl') m') :
    pl'.settings = pl.settings ∧ pl'.console = pl.console := by
  cases hook with
  | beginBoot cold =>
    obtain ⟨_, m₁, -, hpure⟩ := bind_eq_ok_iff.1 hrun
    cases hpure
    exact ⟨rfl, rfl⟩
  | finishBoot cold =>
    obtain ⟨after, m₁, hfinish, hpure⟩ := bind_eq_ok_iff.1 hrun
    obtain ⟨regions, _, _, -, hafter⟩ := Platform.finishBoot_eq_ok hfinish
    rw [← (Prod.mk.inj (pure_eq_ok_iff.1 hpure).1).2, hafter]
    exact ⟨rfl, rfl⟩
  | call c =>
    obtain ⟨r, m₁, hcall, hpure⟩ := bind_eq_ok_iff.1 hrun
    obtain ⟨_, m₂, -, hcall⟩ := bind_eq_ok_iff.1 hcall
    cases hcall
    cases hpure
    exact ⟨rfl, rfl⟩
  | _ => cases h

/-- A hook that does not open the console accesses the second-level cache at most. -/
theorem Hook.emits_act (h : hook.opening? pl.settings = none)
    (hcache : ∀ e : Event, e.Within (SecondLevelCache.footprint pl.settings.cacheBase) → p e)
    (hquiet : ∀ e : Event, e.isBus = false → p e) : Emits p (hook.act pl) := by
  have haside : ∀ e, Vendor.Aside e → p e := fun e he ↦ hquiet e he.isBus_eq
  cases hook with
  | beginBoot cold => exact .bind ((Platform.emits_beginBoot cold).mono haside) fun _ ↦ .pure _
  | finishBoot cold =>
    have hfinish : Emits p (pl.finishBoot cold) := Platform.emits_finishBoot haside hcache
      fun _ _ e he ↦ hquiet e (Table.isBus_of_mem_clearEvents e he)
    exact .bind hfinish fun _ ↦ .pure _
  | call c =>
    have hanswer : Emits p (c.answer pl.regions) := emits_of_runs fun bank ↦ by
      obtain ⟨es, reply, t', hrun, heffect, -⟩ := Vendor.runs_answer pl.regions bank c
      exact ⟨es, _, hrun, fun e he ↦ hquiet e (heffect.isBus_eq e he)⟩
    exact .bind (.bind hanswer fun _ ↦ .pure _) fun _ ↦ .pure _
  | _ => cases h

/-! ### Opening the console -/

namespace Opening

/-- Telling the outcome adds no event. -/
theorem emits_act_of (hopen : Emits p (pl.openConsoleAt o.base o.clock o.baud)) :
    Emits p (o.act pl) := by
  refine .ite (.bind (.bind hopen.attempt fun outcome ↦ ?_) fun _ ↦ .pure _)
    (.bind hopen fun _ ↦ .pure _)
  cases outcome with
  | ok _ => exact .pure _
  | error _ => exact .pure _

theorem emits_act (hp : ∀ e : Event, e.Within pl.surroundings → p e)
    (hsetup : ∀ e : Event, e.Within (setup o.base) → p e)
    (hcontrol : ∀ value, p (controlWrite o.base value)) : Emits p (o.act pl) :=
  emits_act_of (Platform.emits_openConsoleAt hp hsetup hcontrol)

/-- The console was opened or not, and the caller was told; or a stop went through. -/
theorem settling_eq_ok (h : settling pl (o.act pl) m = .ok (ending, pl') m') :
    (ending = o.ending (.ok ()) ∧ pl.openConsoleAt o.base o.clock o.baud m = .ok pl' m') ∨
      (∃ cause, ending = o.ending (.error cause) ∧ pl' = pl ∧
        pl.openConsoleAt o.base o.clock o.baud m = .error (.failure cause) m') ∨
      ∃ stop, (∀ cause, stop ≠ .failure cause) ∧ ending = .error stop ∧ pl' = pl ∧
        pl.openConsoleAt o.base o.clock o.baud m = .error stop m' := by
  obtain ⟨base, clock, baud, coded⟩ := o
  rcases Firmware.settling_eq_ok h with ⟨answer, rfl, hact⟩ | ⟨stop, rfl, rfl, hact⟩
  · cases coded with
    | true =>
      obtain ⟨r, m₁, hstatus, hpure⟩ := bind_eq_ok_iff.1 hact
      cases hpure
      obtain ⟨outcome, m₂, hattempt, hpure⟩ := bind_eq_ok_iff.1 hstatus
      rcases attempt_eq_ok hattempt with ⟨after, rfl, hopen⟩ | ⟨cause, rfl, hopen⟩
      · cases hpure
        exact .inl ⟨rfl, hopen⟩
      · cases hpure
        exact .inr (.inl ⟨cause, rfl, rfl, hopen⟩)
    | false =>
      obtain ⟨after, m₁, hopen, hpure⟩ := bind_eq_ok_iff.1 hact
      cases hpure
      exact .inl ⟨rfl, hopen⟩
  · -- what follows the attempt to open does not stop
    cases coded with
    | true =>
      rcases bind_eq_error_iff.1 hact with hstatus | ⟨_, _, -, hpure⟩
      · rcases bind_eq_error_iff.1 hstatus with hattempt | ⟨outcome, _, -, hpure⟩
        · obtain ⟨hne, hopen⟩ := attempt_eq_error hattempt
          exact .inr (.inr ⟨stop, hne, rfl, rfl, hopen⟩)
        · cases outcome <;> cases hpure
      · cases hpure
    | false =>
      rcases bind_eq_error_iff.1 hact with hopen | ⟨_, _, -, hpure⟩
      · cases stop with
        | failure cause => exact .inr (.inl ⟨cause, rfl, rfl, hopen⟩)
        | overflow op => exact .inr (.inr ⟨.overflow op, nofun, rfl, rfl, hopen⟩)
        | hang => exact .inr (.inr ⟨.hang, nofun, rfl, rfl, hopen⟩)
      · cases hpure

end Opening

/-! ### Registers that boot writes -/

/-- Of the registers the event writes those that are set up at boot, with the values that they get:
the caches are on, and configuration bytes are zero. -/
def BootWrite : Event → Prop
  | .csrWrite .mcacheCtl value => ∃ word, value = Vendor.bootCacheControl word
  | .csrWrite .mmiscCtl _ => True
  | .csrWrite (.pmaCfg n) value => (n = 0 ∨ n = 2) ∧ value = 0
  | .csrWrite _ _ => False
  | _ => True

theorem bootWrite_of_csrWrite?_eq_none {e : Event} (h : e.csrWrite? = none) : BootWrite e := by
  cases e with
  | csrWrite => cases h
  | _ => trivial

theorem bootWrite_of_within {footprint : List Access} {e : Event} (h : e.Within footprint) :
    BootWrite e :=
  bootWrite_of_csrWrite?_eq_none h.csrWrite?_eq_none

theorem bootWrite_of_mem_clearEvents {bank : CsrFile} : ∀ e ∈ Table.clearEvents bank, BootWrite e := by
  rw [Table.clearEvents, List.forall_mem_cons]
  refine ⟨trivial, ?_⟩
  split
  · exact List.forall_mem_cons.2 ⟨⟨.inl rfl, rfl⟩, List.forall_mem_singleton.2 ⟨.inr rfl, rfl⟩⟩
  · exact List.forall_mem_nil _

theorem emits_vendor_enableCaches : Emits BootWrite Vendor.enableCaches := by
  refine .bind (.csrRead fun _ ↦ trivial) fun word ↦ .bind (.csrWrite ⟨word, rfl⟩) fun _ ↦ ?_
  refine .bind (.bind (.csrRead fun _ ↦ trivial) fun _ ↦ .csrWrite trivial) fun _ ↦ ?_
  exact .log trivial

/-- A hook that is no vendor call writes registers as boot does, if any. -/
theorem Hook.emits_bootWrite (h : ∀ c, hook ≠ .call c) : Emits BootWrite (hook.act pl) := by
  cases hopening : hook.opening? pl.settings with
  | some o =>
    rw [act_of_opening? hopening]
    exact Opening.emits_act (fun _ ↦ bootWrite_of_within) (fun _ ↦ bootWrite_of_within) fun _ ↦
      trivial
  | none =>
    cases hook with
    | beginBoot cold =>
      refine .bind (.bind ?_ fun _ ↦ .log trivial) fun _ ↦ .pure _
      exact .csrClear (fun _ ↦ trivial) fun _ ↦ trivial
    | finishBoot cold =>
      have hcache : Emits BootWrite (SecondLevelCache.enable pl.settings.cacheBase) :=
        SecondLevelCache.emits_enable fun _ ↦ bootWrite_of_within
      have hannounce : Emits BootWrite (pl.announce cold) :=
        Platform.emits_announce (fun _ _ ↦ trivial) fun _ _ ↦ bootWrite_of_mem_clearEvents
      rw [act, Platform.finishBoot_eq]
      refine .bind (.bind ?_ fun _ ↦ hannounce) fun _ ↦ .pure _
      exact .bind emits_vendor_enableCaches fun _ ↦ hcache
    | call c => exact absurd rfl (h c)
    | _ => cases hopening

/-! ### Requests -/

/-- What can be asked of a platform. -/
inductive Request
  /-- To call a hook. -/
  | hook (h : Hook)
  /-- To write to the console. -/
  | output (o : Output)

/-- Does what is asked for. -/
def Request.act (pl : Platform) : Request → Firmware (Answer × Platform)
  | .hook h => h.act pl
  | .output o => o.act pl

/-- Carries out a request. Gives how it ended and the platform afterwards. -/
def Platform.make (pl : Platform) (r : Request) : Firmware (Except Stop Answer × Platform) :=
  settling pl (r.act pl)

/-- How a request opens the console, if it does. -/
def Request.opening? (settings : Settings) : Request → Option Opening
  | .hook h => h.opening? settings
  | .output _ => none

variable {r : Request}

theorem Request.act_of_opening? (h : r.opening? pl.settings = some o) : r.act pl = o.act pl := by
  cases r with
  | hook hook => exact Hook.act_of_opening? h
  | output _ => cases h

/-- A request that does not open the console leaves console and settings as they are. -/
theorem Request.keeps_console (h : r.opening? pl.settings = none)
    (hrun : pl.make r m = .ok (ending, pl') m') :
    pl'.settings = pl.settings ∧ pl'.console = pl.console := by
  rcases settling_eq_ok hrun with ⟨answer, rfl, hact⟩ | ⟨_, rfl, rfl, -⟩
  · cases r with
    | hook hook => exact Hook.keeps_console h hact
    | output o =>
      rw [Output.eq_of_act hact]
      exact ⟨rfl, rfl⟩
  · exact ⟨rfl, rfl⟩

theorem emits_make (pl : Platform) (r : Request) : Emits (fun _ ↦ True) (pl.make r) := by
  refine .settling ?_
  cases r with
  | hook hook =>
    show Emits _ (hook.act pl)
    cases hopening : hook.opening? pl.settings with
    | none => exact Hook.emits_act hopening (fun _ _ ↦ trivial) fun _ _ ↦ trivial
    | some o =>
      rw [Hook.act_of_opening? hopening]
      exact Opening.emits_act (fun _ _ ↦ trivial) (fun _ _ ↦ trivial) fun _ ↦ trivial
  | output o => exact Output.emits_act (fun _ _ _ _ ↦ trivial) o

end BringUp.Board
