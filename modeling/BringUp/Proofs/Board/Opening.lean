import BringUp.Proofs.Board.Requests
import BringUp.Proofs.Board.Surroundings
import BringUp.Proofs.Machine.Delay
import BringUp.Proofs.Serial.Sequence

/-!
# Opening the console

How a request to open the console can end, and what was done by then. It is refused while a console
is active or if the rate cannot be had, and then nothing at all is done; it runs out of time at the
clock generator, and then nothing else was accessed; or it succeeds, and then the controller was
left alone until clock and reset were seen to be ready, and the last two accesses to the bus close
the pins and switch transmitter and receiver on (`Opening.Specified`).

Nothing takes a console away again, so of the requests of a session one at most opens one
(`opening_specified_once`).
-/

namespace BringUp.Board

open Firmware Serial

variable {pl pl' : Platform} {o : Opening} {cause : Failure} {m m' : Machine}

/-! ### What was done -/

/-- The clock was seen running and the reset, after that, released. -/
def ClockGate.SeenReady (gate : ClockGate) (es : List Event) : Prop :=
  ∃ clock reset,
    [gate.monitorRead clockMonitor clock, gate.monitorRead resetMonitor reset].Sublist es ∧
      clock &&& gate.bit ≠ 0 ∧ reset &&& gate.bit = 0

/-- By these events the platform `pl` became `pl'`, with a console as asked for. -/
structure Opening.Succeeded (o : Opening) (pl : Platform) (es : List Event) (pl' : Platform) :
    Prop where
  /-- The controller of the console has place, clock and rate as asked for, is modulated as the
  settings say, and is enabled. -/
  active : ∃ ctrl, pl'.console.sink = some ctrl ∧ ctrl.phase = .enabled ∧
    ctrl.line.base = o.base ∧ ctrl.line.clock = o.clock ∧ ctrl.line.baud = o.baud ∧
    ctrl.line.modulated = pl.settings.modulated
  /-- Before any access to the controller, clock and reset were seen to be ready. -/
  ready_first : (∀ a ∈ pl.clockGate.footprint, ¬ a.Meets o.base blockSize) →
    ∀ front e back, es = front ++ e :: back → ¬ e.Avoids o.base blockSize →
      pl.clockGate.SeenReady front
  /-- The last two bus accesses close the pins and switch transmitter and receiver on. -/
  switched_last : ∃ front, es.filter Event.isBus =
    front ++ [pl.pins.relock, controlWrite o.base Scr.bothOn]

theorem Opening.Succeeded.isActive_eq {es : List Event} (h : o.Succeeded pl es pl') :
    pl'.console.isActive = true := by
  obtain ⟨ctrl, hsink, -⟩ := h.active
  rw [Console.isActive, hsink, Option.isSome_some]

/-- What has both handshakes in front accesses a block apart from the clock generator only after
them. -/
theorem ClockGate.seenReady_of_split {gate : ClockGate} {clocked released rest front back : List Event}
    {e : Event} {base clock reset : _} {size : Nat}
    (hgate : ∀ a ∈ gate.footprint, ¬ a.Meets base size)
    (hclocked : ∀ e ∈ clocked, e.Within gate.footprint)
    (hreleased : ∀ e ∈ released, e.Within gate.footprint)
    (hclock : gate.monitorRead clockMonitor clock ∈ clocked) (hbit : clock &&& gate.bit ≠ 0)
    (hreset : gate.monitorRead resetMonitor reset ∈ released) (hbit' : reset &&& gate.bit = 0)
    (hsplit : clocked ++ released ++ rest = front ++ e :: back) (he : ¬ e.Avoids base size) :
    gate.SeenReady front := by
  have hsub : [gate.monitorRead clockMonitor clock, gate.monitorRead resetMonitor reset].Sublist
      (clocked ++ released) :=
    (List.singleton_sublist.2 hclock).append (List.singleton_sublist.2 hreset)
  have havoids : e ∉ clocked ++ released := fun hmem ↦ he <|
    ((List.mem_append.1 hmem).elim (hclocked e) (hreleased e)).avoids hgate
  -- the access stands behind the handshakes
  rcases List.append_eq_append_iff.1 hsplit with ⟨more, rfl, -⟩ | ⟨more, hfront, hrest⟩
  · exact ⟨clock, reset, hsub.trans (List.sublist_append_left _ _), hbit, hbit'⟩
  · rcases more with - | ⟨e', more⟩
    · rw [List.append_nil] at hfront
      exact ⟨clock, reset, hfront ▸ hsub, hbit, hbit'⟩
    · obtain ⟨rfl, -⟩ := List.cons.inj hrest
      exact absurd (hfront ▸ List.mem_append_right _ List.mem_cons_self) havoids

namespace Platform

variable {base clock : UInt64} {baud : UInt32} {line : Line}

/-! ### The cases -/

theorem openConsoleAt_of_active (h : pl.console.isActive = true) :
    pl.openConsoleAt base clock baud = fail .alreadyUp :=
  if_pos h

theorem openConsoleAt_of_error (h : pl.console.isActive = false)
    (hline : Line.of? base clock baud = .error cause) :
    pl.openConsoleAt base clock baud = fail cause := by
  rw [openConsoleAt, if_neg (Bool.eq_false_iff.1 h), hline]

/-- The controller that is to be the console. -/
def candidate (pl : Platform) (line : Line) : Controller :=
  ⟨line.modulate pl.settings.modulated, .uninitialized⟩

theorem openConsoleAt_of_line (h : pl.console.isActive = false)
    (hline : Line.of? base clock baud = .ok line) :
    pl.openConsoleAt base clock baud = do
      let (outcome, ctrl) ← (pl.candidate line).bringUp pl.clockGate.power pl.pins.route
      liftExcept outcome
      log .info s!"platform: console on {Sink.name ctrl}"
      return { pl with console := ⟨some ctrl⟩ } := by
  rw [openConsoleAt, if_neg (Bool.eq_false_iff.1 h), hline]
  rfl

/-- **A console that was opened.** -/
theorem openConsoleAt_eq_ok (h : pl.openConsoleAt o.base o.clock o.baud m = .ok pl' m') :
    pl.console.isActive = false ∧ (∃ line, Line.of? o.base o.clock o.baud = .ok line) ∧
      pl'.settings = pl.settings ∧ ∃ es, m.Leads es m' ∧ o.Succeeded pl es pl' := by
  cases hactive : pl.console.isActive with
  | true =>
    rw [openConsoleAt_of_active hactive] at h
    cases h
  | false =>
    cases hline : Line.of? o.base o.clock o.baud with
    | error cause =>
      rw [openConsoleAt_of_error hactive hline] at h
      cases h
    | ok line =>
      rw [openConsoleAt_of_line hactive hline] at h
      obtain ⟨⟨outcome, ctrl⟩, n₁, hup, htell⟩ := bind_eq_ok_iff.1 h
      obtain ⟨_, rfl, hreport⟩ := liftExcept_bind_eq_ok htell
      obtain ⟨_, n₂, hlog, hpure⟩ := bind_eq_ok_iff.1 hreport
      obtain ⟨rfl, rfl⟩ := pure_eq_ok_iff.1 hpure
      obtain ⟨hbase, hclock, hbaud⟩ := Line.of?_eq_ok hline
      -- clock and reset, the controller's own accesses, the pins, and the last switch
      obtain ⟨rfl, m₁, m₂, m₃, m₄, set, text, hstart, hrelease, hset, hpins, hswitch⟩ :=
        Controller.bringUp_eq_ok (show Phase.uninitialized ≠ .enabled by decide) hup
      obtain ⟨clocked, clock, hclocked, hgate, hread, hbit⟩ := ClockGate.startClock_eq_ok hstart
      obtain ⟨released, reset, hreleased, hgate', hread', hbit'⟩ :=
        ClockGate.releaseReset_eq_ok hrelease
      obtain ⟨routed, hrouted, front, hfront⟩ := Pins.route_eq_ok hpins
      obtain ⟨name, hname⟩ : ∃ name, n₁.Leads [.log .info name] n₂ := by
        cases hlog
        exact ⟨_, .record n₁ rfl⟩
      have hrest := hset.trans (hrouted.trans (hswitch.trans hname))
      refine ⟨rfl, ⟨line, rfl⟩, rfl, _, (hclocked.trans hreleased).trans hrest, ?_, ?_, ?_⟩
      · exact ⟨_, rfl, rfl, hbase, hclock, hbaud, rfl⟩
      · intro hapart front e back hsplit he
        exact ClockGate.seenReady_of_split hapart hgate hgate' hread hbit hread' hbit' hsplit he
      · refine ⟨(clocked ++ released ++ set).filter Event.isBus ++ front, ?_⟩
        simp only [List.filter_append, hfront, List.append_assoc]
        rw [← hbase]
        rfl

/-- **A console that was not opened**: one is active, the rate cannot be had, or the clock generator
did not follow in time. -/
theorem openConsoleAt_eq_failure
    (h : pl.openConsoleAt o.base o.clock o.baud m = .error (.failure cause) m') :
    (pl.console.isActive = true ∧ cause = .alreadyUp ∧ m' = m) ∨
      pl.console.isActive = false ∧
        (Line.of? o.base o.clock o.baud = .error cause ∧ m' = m ∨
          (∃ line, Line.of? o.base o.clock o.baud = .ok line) ∧ cause.isTimeout = true ∧
            ∃ es, m.Leads es m' ∧ ∀ e ∈ es, e.Within pl.clockGate.footprint) := by
  cases hactive : pl.console.isActive with
  | true =>
    rw [openConsoleAt_of_active hactive] at h
    cases h
    exact .inl ⟨rfl, rfl, rfl⟩
  | false =>
    refine .inr ⟨rfl, ?_⟩
    cases hline : Line.of? o.base o.clock o.baud with
    | error cause' =>
      rw [openConsoleAt_of_error hactive hline] at h
      cases h
      exact .inl ⟨rfl, rfl⟩
    | ok line =>
      have hne : (pl.candidate line).phase ≠ .enabled := show Phase.uninitialized ≠ .enabled by decide
      obtain ⟨⟨outcome, ctrl⟩, m₁, hup⟩ :=
        Controller.bringUp_ends hne pl.clockGate.power pl.pins.route m
      rw [openConsoleAt_of_line hactive hline, bind_of_ok hup] at h
      -- only bringing up can fail, and that only at clock and reset
      obtain ⟨rfl, rfl⟩ : outcome = .error (.failure cause) ∧ m₁ = m' := by
        cases outcome with
        | ok _ => cases h
        | error stop =>
          cases h
          exact ⟨rfl, rfl⟩
      refine .inr ⟨⟨line, rfl⟩, ?_⟩
      rcases Controller.bringUp_eq_failure hne Pins.unfailing_route hup with hstart | ⟨n, hstart, hrelease⟩
      · exact ⟨ClockGate.failsWith_startClock m cause m₁ hstart,
          (ClockGate.emits_startClock fun _ ↦ id).of_error hstart⟩
      · obtain ⟨es, hes, hp⟩ := (ClockGate.emits_startClock fun _ ↦ id).of_ok hstart
        obtain ⟨fs, hfs, hq⟩ := (ClockGate.emits_releaseReset fun _ ↦ id).of_error hrelease
        exact ⟨ClockGate.failsWith_releaseReset n cause m₁ hrelease, es ++ fs, hes.trans hfs,
          List.forall_mem_append.2 ⟨hp, hq⟩⟩

end Platform

/-! ### Steps -/

variable {s : Step Platform Request Answer}

/-- How a request to open the console is answered, and what was done by then. -/
structure Opening.Specified (o : Opening) (s : Step Platform Request Answer) : Prop where
  /-- There is a console already exactly if one is active. -/
  alreadyUp_iff : s.ending = o.ending (.error .alreadyUp) ↔ s.before.console.isActive = true
  /-- The rate cannot be had exactly if none is active and no line has it. -/
  badRate_iff : s.ending = o.ending (.error (.badRate o.clock o.baud)) ↔
    s.before.console.isActive = false ∧ ∃ cause, Line.of? o.base o.clock o.baud = .error cause
  /-- In both cases nothing was done. -/
  refused : s.ending = o.ending (.error .alreadyUp) ∨
    s.ending = o.ending (.error (.badRate o.clock o.baud)) → s.events = []
  /-- Otherwise it was opened, or the time ran out. -/
  answered : s.ending ≠ o.ending (.error .alreadyUp) →
    s.ending ≠ o.ending (.error (.badRate o.clock o.baud)) →
      s.ending = o.ending (.ok ()) ∨
        ∃ what waited, s.ending = o.ending (.error (.timeout what waited))
  /-- If the time ran out, there is no console, and only the clock generator was accessed. -/
  timedOut : ∀ what waited, s.ending = o.ending (.error (.timeout what waited)) →
    s.after.console.sink = none ∧ ∀ e ∈ s.events, e.Within s.before.clockGate.footprint
  /-- If it was opened, the console is as asked for, and was brought up in order. -/
  succeeded : s.ending = o.ending (.ok ()) → o.Succeeded s.before s.events s.after

namespace Opening

variable {r r' : Except Failure Unit}

/-- What is told of one outcome is told of no other one with another status code. -/
theorem ending_ne_of_statusOf_ne (h : s.ending = o.ending r) (hne : statusOf r ≠ statusOf r') :
    s.ending ≠ o.ending r' :=
  fun h' ↦ hne (statusOf_eq_of_ending_eq (h.symm.trans h'))

theorem specified_of_succeeded (hending : s.ending = o.ending (.ok ()))
    (hinactive : s.before.console.isActive = false)
    (hline : ∃ line, Line.of? o.base o.clock o.baud = .ok line)
    (h : o.Succeeded s.before s.events s.after) : o.Specified s := by
  have hup : s.ending ≠ o.ending (.error .alreadyUp) :=
    ending_ne_of_statusOf_ne hending (show (0 : Int) ≠ -6 by decide)
  have hrate : s.ending ≠ o.ending (.error (.badRate o.clock o.baud)) :=
    ending_ne_of_statusOf_ne hending (show (0 : Int) ≠ -3 by decide)
  have htime : ∀ what waited, s.ending ≠ o.ending (.error (.timeout what waited)) :=
    fun _ _ ↦ ending_ne_of_statusOf_ne hending (show (0 : Int) ≠ -1 by decide)
  refine ⟨iff_of_false hup (Bool.eq_false_iff.1 hinactive), iff_of_false hrate ?_,
    fun h ↦ (h.elim hup hrate).elim, fun _ _ ↦ .inl hending,
    fun what waited h ↦ absurd h (htime what waited), fun _ ↦ h⟩
  rintro ⟨-, cause, herror⟩
  obtain ⟨line, hline⟩ := hline
  exact nomatch hline.symm.trans herror

theorem specified_of_active (hending : s.ending = o.ending (.error .alreadyUp))
    (hactive : s.before.console.isActive = true) (hevents : s.events = []) : o.Specified s := by
  have hrate : s.ending ≠ o.ending (.error (.badRate o.clock o.baud)) :=
    ending_ne_of_statusOf_ne hending (show (-6 : Int) ≠ -3 by decide)
  have htime : ∀ what waited, s.ending ≠ o.ending (.error (.timeout what waited)) :=
    fun _ _ ↦ ending_ne_of_statusOf_ne hending (show (-6 : Int) ≠ -1 by decide)
  have hok : s.ending ≠ o.ending (.ok ()) :=
    ending_ne_of_statusOf_ne hending (show (-6 : Int) ≠ 0 by decide)
  refine ⟨iff_of_true hending hactive, iff_of_false hrate fun h ↦ ?_, fun _ ↦ hevents,
    fun h ↦ absurd hending h, fun what waited h ↦ absurd h (htime what waited),
    fun h ↦ absurd h hok⟩
  exact Bool.eq_false_iff.1 h.1 hactive

theorem specified_of_badRate (hending : s.ending = o.ending (.error (.badRate o.clock o.baud)))
    (hinactive : s.before.console.isActive = false)
    (hline : Line.of? o.base o.clock o.baud = .error (.badRate o.clock o.baud))
    (hevents : s.events = []) : o.Specified s := by
  have hup : s.ending ≠ o.ending (.error .alreadyUp) :=
    ending_ne_of_statusOf_ne hending (show (-3 : Int) ≠ -6 by decide)
  have htime : ∀ what waited, s.ending ≠ o.ending (.error (.timeout what waited)) :=
    fun _ _ ↦ ending_ne_of_statusOf_ne hending (show (-3 : Int) ≠ -1 by decide)
  have hok : s.ending ≠ o.ending (.ok ()) :=
    ending_ne_of_statusOf_ne hending (show (-3 : Int) ≠ 0 by decide)
  exact ⟨iff_of_false hup (Bool.eq_false_iff.1 hinactive),
    iff_of_true hending ⟨hinactive, _, hline⟩, fun _ ↦ hevents, fun _ h ↦ absurd hending h,
    fun what waited h ↦ absurd h (htime what waited), fun h ↦ absurd h hok⟩

theorem specified_of_timeout {what : String} {waited : UInt64}
    (hending : s.ending = o.ending (.error (.timeout what waited)))
    (hinactive : s.before.console.isActive = false)
    (hline : ∃ line, Line.of? o.base o.clock o.baud = .ok line) (hafter : s.after = s.before)
    (hwithin : ∀ e ∈ s.events, e.Within s.before.clockGate.footprint) : o.Specified s := by
  have hup : s.ending ≠ o.ending (.error .alreadyUp) :=
    ending_ne_of_statusOf_ne hending (show (-1 : Int) ≠ -6 by decide)
  have hrate : s.ending ≠ o.ending (.error (.badRate o.clock o.baud)) :=
    ending_ne_of_statusOf_ne hending (show (-1 : Int) ≠ -3 by decide)
  have hok : s.ending ≠ o.ending (.ok ()) :=
    ending_ne_of_statusOf_ne hending (show (-1 : Int) ≠ 0 by decide)
  have hempty : s.after.console.sink = none := by
    rw [hafter, ← Option.not_isSome_iff_eq_none]
    exact Bool.eq_false_iff.1 hinactive
  refine ⟨iff_of_false hup (Bool.eq_false_iff.1 hinactive), iff_of_false hrate ?_,
    fun h ↦ (h.elim hup hrate).elim, fun _ _ ↦ .inr ⟨what, waited, hending⟩,
    fun _ _ _ ↦ ⟨hempty, hwithin⟩, fun h ↦ absurd h hok⟩
  rintro ⟨-, cause, herror⟩
  obtain ⟨line, hline⟩ := hline
  exact nomatch hline.symm.trans herror

/-- **Every request to open the console that is answered is answered as specified.** -/
theorem specified_of_made (hmade : s.Made Platform.make m') (hreturned : s.Returned)
    (ho : s.request.opening? s.before.settings = some o) : o.Specified s := by
  have hrun := hmade.run_eq
  rw [Platform.make, Request.act_of_opening? ho] at hrun
  rcases settling_eq_ok hrun with ⟨hending, hopen⟩ | ⟨cause, hending, hafter, hopen⟩ |
    ⟨stop, hne, hending, -⟩
  · obtain ⟨hinactive, hline, -, es, hes, hsucceeded⟩ := Platform.openConsoleAt_eq_ok hopen
    exact specified_of_succeeded hending hinactive hline (hmade.eq_events hes ▸ hsucceeded)
  · rcases Platform.openConsoleAt_eq_failure hopen with ⟨hactive, rfl, hm⟩ |
      ⟨hinactive, ⟨hline, hm⟩ | ⟨hline, htimeout, es, hes, hwithin⟩⟩
    · exact specified_of_active hending hactive (hmade.events_eq_nil hm)
    · obtain rfl := Line.of?_eq_error hline
      exact specified_of_badRate hending hinactive hline (hmade.events_eq_nil hm)
    · obtain ⟨what, waited, rfl⟩ := Failure.eq_timeout_of_isTimeout htimeout
      exact specified_of_timeout hending hinactive hline hafter (hmade.eq_events hes ▸ hwithin)
  · obtain ⟨cause, hstop⟩ := hreturned.of_error hending
    exact absurd hstop (hne cause)

end Opening

/-! ### Sessions -/

variable {settings : Settings} {bank : CsrFile} {steps : List (Step Platform Request Answer)}

/-- The request opened the console. -/
def Opens (settings : Settings) (s : Step Platform Request Answer) : Prop :=
  ∃ o, s.request.opening? settings = some o ∧ s.ending = o.ending (.ok ())

/-- **What one request does to the console**: it opens one where there is none, or leaves the
console as it is. The settings stay in any case. -/
theorem console_of_made (hmade : s.Made Platform.make m') :
    s.after.settings = s.before.settings ∧
      (s.before.console.isActive = false ∧ (∃ o, s.request.opening? s.before.settings = some o ∧
            s.ending = o.ending (.ok ()) ∧ o.Succeeded s.before s.events s.after) ∨
        s.after.console = s.before.console ∧ ¬ Opens s.before.settings s) := by
  cases ho : s.request.opening? s.before.settings with
  | none =>
    obtain ⟨hsettings, hconsole⟩ := Request.keeps_console ho hmade.run_eq
    refine ⟨hsettings, .inr ⟨hconsole, ?_⟩⟩
    rintro ⟨o, ho', -⟩
    exact nomatch ho.symm.trans ho'
  | some o =>
    have hrun := hmade.run_eq
    rw [Platform.make, Request.act_of_opening? ho] at hrun
    -- a request that did not succeed has not opened the console
    have hnot : s.ending ≠ o.ending (.ok ()) → ¬ Opens s.before.settings s := by
      rintro hne ⟨o', ho', hending⟩
      obtain rfl : o = o' := Option.some.inj (ho.symm.trans ho')
      exact hne hending
    rcases Opening.settling_eq_ok hrun with ⟨hending, hopen⟩ | ⟨cause, hending, hafter, -⟩ |
      ⟨stop, -, hending, hafter, -⟩
    · obtain ⟨hinactive, -, hsettings, es, hes, hsucceeded⟩ := Platform.openConsoleAt_eq_ok hopen
      rw [hmade.eq_events hes] at hsucceeded
      exact ⟨hsettings, .inl ⟨hinactive, o, rfl, hending, hsucceeded⟩⟩
    · rw [hafter]
      exact ⟨rfl, .inr ⟨rfl, hnot (Opening.ending_ne_of_statusOf_ne hending
        (Failure.status_ne_success cause))⟩⟩
    · rw [hafter]
      refine ⟨rfl, .inr ⟨rfl, hnot fun hok ↦ ?_⟩⟩
      exact o.ending_ok_ne_error stop (hok.symm.trans hending)

/-- **What a session preserves**: a console is active exactly if it was opened, which happened once
at most. -/
theorem active_iff_of_session (h : Session Platform.make { settings } bank steps pl m) :
    pl.settings = settings ∧ (pl.console.isActive = true ↔ ∃ s ∈ steps, Opens settings s) ∧
      steps.Pairwise fun s t ↦ ¬ (Opens settings s ∧ Opens settings t) := by
  induction h with
  | start => exact ⟨rfl, iff_of_false (by simp) (by simp), .nil⟩
  | elsewhere _ _ ih => exact ih
  | @call steps s m' _ hmade ih =>
    obtain ⟨hsettings, hiff, hpairwise⟩ := ih
    obtain ⟨hsettings', hconsole⟩ := console_of_made hmade
    rw [hsettings] at hsettings' hconsole
    refine ⟨hsettings', ?_, ?_⟩
    · simp only [List.mem_append, List.mem_singleton, or_and_right, exists_or, exists_eq_left]
      rw [← hiff]
      rcases hconsole with ⟨-, o, ho, hending, hsucceeded⟩ | ⟨hconsole, hnot⟩
      · exact iff_of_true hsucceeded.isActive_eq (.inr ⟨o, ho, hending⟩)
      · rw [hconsole]
        exact ⟨.inl, fun h ↦ h.resolve_right hnot⟩
    · refine List.pairwise_append.2 ⟨hpairwise, List.pairwise_singleton _ _, fun t ht u hu ↦ ?_⟩
      rintro ⟨htopens, huopens⟩
      rw [List.mem_singleton.1 hu] at huopens
      have hactive : s.before.console.isActive = true := hiff.2 ⟨t, ht, htopens⟩
      rcases hconsole with ⟨hinactive, -⟩ | ⟨-, hnot⟩
      · exact Bool.eq_false_iff.1 hinactive hactive
      · exact hnot huopens

/-- **Opening the console is ordered, and done completely or not at all.** Whatever is asked of a
platform, in whatever order and under any device, every request to open the console that is answered
is answered as specified (`Opening.Specified`); and one of them at most opens it. -/
theorem opening_specified_once (h : Session Platform.make { settings } bank steps pl m) :
    (∀ s ∈ steps, s.before.settings = settings ∧
      ∀ o, s.request.opening? settings = some o → s.Returned → o.Specified s) ∧
    steps.Pairwise fun s t ↦ ¬ (Opens settings s ∧ Opens settings t) := by
  refine ⟨fun s hs ↦ ?_, (active_iff_of_session h).2.2⟩
  obtain ⟨before, later, rfl⟩ := List.append_of_mem hs
  obtain ⟨m', hbefore, hmade, -⟩ := h.made
  have hsettings := (active_iff_of_session hbefore).1
  refine ⟨hsettings, fun o ho hreturned ↦ ?_⟩
  exact Opening.specified_of_made hmade hreturned (by rw [hsettings]; exact ho)

/-- An opening that goes through is answered, and the platform is the opened one. -/
theorem make_openConsole_of_ok (h : pl.openConsole m = .ok pl' m') :
    pl.make (.hook .openConsole) m = .ok (.ok .done, pl') m' :=
  settling_of_ok (bind_of_ok h)

/-- A console that is active is not opened once more, and the status code says so. -/
theorem make_openConsoleStatus_of_active (h : pl.console.isActive = true) (m : Machine) :
    pl.make (.hook .openConsoleStatus) m = .ok (.ok (.status (-6)), pl) m := by
  have hrefused : pl.openConsole = fail .alreadyUp := Platform.openConsoleAt_of_active h
  have hstatus : pl.status pl.openConsole m = .ok (-6, pl) m := by
    rw [hrefused]
    rfl
  exact settling_of_ok (bind_of_ok hstatus)

/-! ### A board that is ready -/

/-- A board whose clock runs, whose reset is released and whose transmitter is ready whenever they
are looked at. -/
def readyBoard : Device where
  onRead _ address _ _ := some <| Memory.empty.store address
    [if address = 0x11010704 then 0x01 else if address = 0x1004B808 then 0x60 else 0x00]
  onWrite _ _ _ _ mem := some mem

/-- A machine with a board that is ready. -/
def readyMachine : Machine :=
  { device := readyBoard, watchdog := ⟨100, 0, 0, 0⟩ }

/-- On it the console of the usual settings can be opened, and bytes can be sent then, also with a
limit. -/
theorem openConsole_readyMachine :
    ∃ pl m, Platform.openConsole { settings := {} } readyMachine = .ok pl m ∧
      ∃ ctrl, pl.console.sink = some ctrl ∧ ctrl.line.base = 0x1004B800 ∧
        ∃ ctrl' m₁ m₂, Sink.putAll ctrl [0x61, 0x0D, 0x0A] m = .ok ctrl' m₁ ∧
          ctrl.trySend (.after 5) 0x62 m₁ = .ok () m₂ := by
  let fresh : Platform := { settings := {} }
  let opened : Controller := { Controller.freshConsole with phase := .enabled }
  have hends : (Controller.freshConsole.inTurn fresh.clockGate.power fresh.pins.route).endsWith
      (fun _ m ↦ (Sink.putAll opened [0x61, 0x0D, 0x0A] : Firmware Controller).endsWith (fun _ m₁ ↦
        (opened.trySend (.after 5) 0x62).endsWith (fun _ _ ↦ true) m₁)
          (m.record (.log .info "platform: console on scif"))) readyMachine = true := by
    simp only [fresh, opened, Controller.inTurn, Controller.prepare, delay_eq]
    cbv
  obtain ⟨⟨⟩, m, hup, hsends⟩ := endsWith_iff.1 hends
  obtain ⟨ctrl', m₁, hput, htries⟩ := endsWith_iff.1 hsends
  obtain ⟨⟨⟩, m₂, htry, -⟩ := endsWith_iff.1 htries
  -- the stages end as they do in turn, and the controller is enabled then
  have hne : Controller.freshConsole.phase ≠ .enabled := by decide
  obtain ⟨ctrl, hbringUp⟩ := Controller.exists_bringUp hne (Controller.observe_of_ok hup)
  obtain ⟨rfl, -⟩ := Controller.stages_of_bringUp_eq_ok hne hbringUp
  have hopen : fresh.openConsole readyMachine = .ok { fresh with console := ⟨some opened⟩ }
      (m.record (.log .info "platform: console on scif")) := by
    have hcandidate : fresh.openConsole = _ :=
      Platform.openConsoleAt_of_line rfl (Line.of?_of_line Controller.freshConsole.line)
    exact (congrFun hcandidate readyMachine).trans (bind_of_ok hbringUp)
  exact ⟨_, _, hopen, opened, rfl, rfl, ctrl', m₁, m₂, hput, htry⟩

/-- A rate that cannot be had, the console of the settings, and the same again. -/
theorem opening_specified_once_on_third :
    ∃ (steps : List (Step Platform Request Answer)) (pl : Platform) (m : Machine),
      Session Platform.make { settings := {} } .zero steps pl m ∧
      steps.map Step.ending = [.error (.failure (.badRate 100000000 0)), .ok .done,
        .ok (.status (-6))] ∧
      (∃ s ∈ steps, s.ending = .ok .done ∧ Opening.Succeeded ⟨0x1004B800, 100000000, 115200, false⟩
        s.before s.events s.after) ∧
      steps.Pairwise fun s t ↦ ¬ (Opens {} s ∧ Opens {} t) := by
  let fresh : Platform := { settings := {} }
  let refused : Request := .hook (.openConsoleAt 0x1004B800 100000000 0)
  let opening : Request := .hook .openConsole
  let again : Request := .hook .openConsoleStatus
  obtain ⟨pl, m, hopen, ctrl, hsink, -⟩ := openConsole_readyMachine
  have hactive : pl.console.isActive = true := by rw [Console.isActive, hsink, Option.isSome_some]
  -- the three requests, one after the other
  have hfirst : fresh.make refused readyMachine =
      .ok (.error (.failure (.badRate 100000000 0)), fresh) readyMachine := rfl
  have hsecond : fresh.make opening readyMachine = .ok (.ok .done, pl) m :=
    make_openConsole_of_ok hopen
  have hthird : pl.make again m = .ok (.ok (.status (-6)), pl) m :=
    make_openConsoleStatus_of_active hactive m
  have hstart : Session Platform.make fresh .zero [] fresh readyMachine := .start rfl
  obtain ⟨es₁, h₁⟩ := hstart.extend refused (emits_make fresh refused) hfirst
  obtain ⟨es₂, h₂⟩ := h₁.extend opening (emits_make fresh opening) hsecond
  obtain ⟨es₃, h₃⟩ := h₂.extend again (emits_make pl again) hthird
  obtain ⟨hspecified, honce⟩ := opening_specified_once h₃
  let opened : Step Platform Request Answer := ⟨opening, fresh, readyMachine, .ok .done, pl, es₂⟩
  have hopened := (hspecified opened
    (List.mem_append_left _ (List.mem_append_right _ List.mem_cons_self))).2 _ rfl trivial
  exact ⟨_, pl, m, h₃, rfl, ⟨opened, by simp [opened], rfl, hopened.succeeded rfl⟩, honce⟩

end BringUp.Board
