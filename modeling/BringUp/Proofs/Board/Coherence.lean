import BringUp.Proofs.Board.Requests
import BringUp.Proofs.Vendor.Rulings

/-!
# Caches that are turned off

A cache that is turned off has to be made consistent: the data cache is written back and
invalidated, and for the instruction cache a fence is executed. `FollowedUp` says of the events of a
hook that this happens after every register write that turns the cache off.

It happens whenever a control is switched, and the caches are never turned off at boot. But a call
that overwrites the cache control register as a whole does nothing besides. So a hook makes a cache
consistent that it turns off, unless it is such a call and the operand has the cache off
(`followed_up_iff`).
-/

namespace BringUp

open Firmware

/-! ### Turning a cache off -/

/-- Over a bank the event takes a bit of the cache control register from one to zero. -/
def TurnsOff (i : Nat) (bank : CsrFile) : Event → Prop
  | .csrWrite .mcacheCtl value =>
    (bank.get .mcacheCtl).toBitVec.getLsbD i = true ∧ value.toBitVec.getLsbD i = false
  | _ => False

/-- Whenever one of the events takes the bit from one to zero, what is due comes later. -/
def FollowedUp (i : Nat) (due : Event) (bank : CsrFile) (es : List Event) : Prop :=
  ∀ front e back, es = front ++ e :: back → TurnsOff i (bank.replay front) e → due ∈ back

variable {i : Nat} {due : Event} {bank : CsrFile} {es : List Event}

theorem followedUp_nil : FollowedUp i due bank [] :=
  fun _ _ _ h ↦ absurd h.symm (List.append_ne_nil_of_right_ne_nil _ (List.cons_ne_nil _ _))

theorem followedUp_cons_iff {e : Event} : FollowedUp i due bank (e :: es) ↔
    (TurnsOff i bank e → due ∈ es) ∧ FollowedUp i due (bank.react e) es := by
  constructor
  · intro h
    refine ⟨h [] e es rfl, fun front e' back hes ↦ ?_⟩
    exact h (e :: front) e' back (by rw [hes, List.cons_append])
  · rintro ⟨hfirst, hrest⟩ front e' back hes
    cases front with
    | nil =>
      obtain ⟨rfl, rfl⟩ := List.cons.inj hes
      exact hfirst
    | cons e'' front =>
      obtain ⟨rfl, hback⟩ := List.cons.inj hes
      exact hrest front e' back hback

/-- Events that never turn the cache off have nothing to follow. -/
theorem followedUp_of_forall (h : ∀ e ∈ es, ∀ bank, ¬ TurnsOff i bank e) :
    FollowedUp i due bank es := by
  rintro front e back rfl hoff
  exact absurd hoff (h e (List.mem_append_right _ List.mem_cons_self) _)

/-- An event that turns a cache off is a register write. -/
theorem not_turnsOff_of_csrWrite?_eq_none {e : Event} (h : e.csrWrite? = none) (bank : CsrFile) :
    ¬ TurnsOff i bank e := by
  cases e with
  | csrWrite => cases h
  | _ => exact id

/-- A write of another register is none. -/
theorem not_turnsOff_csrWrite {csr : Csr} (h : csr ≠ .mcacheCtl) (value : UInt64)
    (bank : CsrFile) : ¬ TurnsOff i bank (.csrWrite csr value) := by
  intro hoff
  cases csr with
  | mcacheCtl => exact h rfl
  | _ => exact hoff

/-! ### Vendor calls -/

namespace Vendor

open Pma

variable {t t' : Table} {c : Call} {reply : Reply}

/-- The call overwrites the cache control register with a word in which the bit is zero, and the bit
is one. -/
def Call.OverwritesOff (i : Nat) (bank : CsrFile) (c : Call) : Prop :=
  c.extension = extensionId ∧ c.function = 2 ∧
    (bank.get .mcacheCtl).toBitVec.getLsbD i = true ∧ c.args.first.toBitVec.getLsbD i = false

theorem not_turnsOff_of_sparesControls {e : Event} (h : SparesControls e) (bank : CsrFile) :
    ¬ TurnsOff i bank e := by
  cases e with
  | csrWrite csr value => exact not_turnsOff_csrWrite (h (csr, value) rfl).1 value bank
  | _ => exact id

/-- What has to follow when a control was switched does not turn a cache off itself. -/
theorem Control.not_turnsOff_of_mem_aftermath {control : Control} {on : Bool} {e : Event}
    (h : e ∈ control.aftermath on) (bank : CsrFile) : ¬ TurnsOff i bank e := by
  unfold aftermath at h
  split at h
  · rw [List.mem_singleton.1 h]
    exact id
  · rw [List.mem_singleton.1 h]
    exact id
  · cases h

/-- Whatever turns the data cache off has it written back and invalidated. -/
theorem Control.flush_mem_aftermath (control : Control) (on : Bool)
    (h : control.ruling on 1 = some false) : .csrWrite .mcctlCommand 6 ∈ control.aftermath on := by
  cases owner?_of_ruling h
  obtain rfl : on = false := Option.some.inj h
  exact List.mem_singleton_self _

/-- Whatever turns the instruction cache off has a fence executed. -/
theorem Control.fence_mem_aftermath (control : Control) (on : Bool)
    (h : control.ruling on 0 = some false) : .fence ∈ control.aftermath on := by
  cases owner?_of_ruling h
  obtain rfl : on = false := Option.some.inj h
  exact List.mem_singleton_self _

/-- **Switching a control makes consistent what it turns off.** -/
theorem Control.followedUp_events
    (hdue : ∀ (control : Control) on, control.ruling on i = some false → due ∈ control.aftermath on)
    (hi : i < 64) (control : Control) (on : Bool) (bank : CsrFile) (text : String) :
    FollowedUp i due bank (control.events on bank ++ [.log .debug text]) := by
  refine followedUp_cons_iff.2 ⟨fun h ↦ h.elim, followedUp_cons_iff.2 ⟨fun hoff ↦ ?_, ?_⟩⟩
  · refine List.mem_append_left _ (hdue control on ?_)
    -- a bit that went from one to zero was ruled
    cases hreg : control.register with
    | mcacheCtl =>
      rw [hreg] at hoff
      obtain ⟨hone, hzero⟩ := hoff
      rw [control.getLsbD_turn on _ hi] at hzero
      cases hruling : control.ruling on i with
      | none =>
        rw [hruling] at hzero
        exact absurd (hone.symm.trans hzero) (by decide)
      | some b =>
        rw [hruling] at hzero
        exact congrArg some hzero
    | _ =>
      rw [hreg] at hoff
      exact hoff.elim
  · refine followedUp_of_forall fun e he bank ↦ ?_
    rcases List.mem_append.1 he with he | he
    · exact not_turnsOff_of_mem_aftermath he bank
    · rw [List.mem_singleton.1 he]
      exact id

theorem Call.command?_eq_writeCsr_mcacheCtl_iff :
    c.command? = some (.writeCsr .mcacheCtl) ↔ c.extension = extensionId ∧ c.function = 2 := by
  have hid : Command.ofId? c.function = some (.writeCsr .mcacheCtl) ↔ c.function = 2 := by
    rw [Command.ofId?_eq_some_iff_of_unique (n := 2) (by decide), ← UInt64.toNat_inj]
    rfl
  rw [command?, Option.ite_none_right_eq_some, hid]

theorem Call.OverwritesOff.command?_eq (h : c.OverwritesOff i bank) :
    c.command? = some (.writeCsr .mcacheCtl) :=
  command?_eq_writeCsr_mcacheCtl_iff.2 ⟨h.1, h.2.1⟩

/-- **A call makes consistent what it turns off, unless it overwrites the register as a whole.** -/
theorem Steering.followedUp_iff
    (hdue : ∀ (control : Control) on, control.ruling on i = some false → due ∈ control.aftermath on)
    (hi : i < 64) (h : Steering t bank c es reply t') :
    FollowedUp i due bank es ↔ ¬ c.OverwritesOff i bank := by
  cases h with
  | @overwrite csr hcommand =>
    -- nothing follows the write
    rw [followedUp_cons_iff, and_iff_left followedUp_nil, List.mem_nil_iff, imp_false]
    refine not_congr ⟨fun hoff ↦ ?_, fun hoff ↦ ?_⟩
    · cases csr with
      | mcacheCtl =>
        obtain ⟨hext, hfun⟩ := Call.command?_eq_writeCsr_mcacheCtl_iff.1 hcommand
        exact ⟨hext, hfun, hoff⟩
      | _ => exact hoff.elim
    · cases hcommand.symm.trans hoff.command?_eq
      exact hoff.2.2
  | @switch control hcommand text =>
    refine iff_of_true (Control.followedUp_events hdue hi control _ bank text) fun hoff ↦ ?_
    cases hcommand.symm.trans hoff.command?_eq
  | aside hcommand hes =>
    refine iff_of_true ?_ fun hoff ↦ ?_
    · exact followedUp_of_forall fun e he ↦ not_turnsOff_of_sparesControls (hes e he)
    · cases hcommand _ hoff.command?_eq

end Vendor

/-! ### Hooks -/

namespace Board

open Pma

/-- Over no bank does the event turn one of the caches off. -/
def KeepsOn (e : Event) : Prop :=
  ∀ i < 2, ∀ bank, ¬ TurnsOff i bank e

variable {hook : Hook} {e : Event}

theorem keepsOn_of_csrWrite?_eq_none (h : e.csrWrite? = none) : KeepsOn e :=
  fun _ _ ↦ not_turnsOff_of_csrWrite?_eq_none h

theorem keepsOn_csrWrite {csr : Csr} (h : csr ≠ .mcacheCtl) (value : UInt64) :
    KeepsOn (.csrWrite csr value) :=
  fun _ _ ↦ not_turnsOff_csrWrite h value

/-- The word set at boot has both caches on. -/
theorem keepsOn_bootCacheControl (word : UInt64) :
    KeepsOn (.csrWrite .mcacheCtl (Vendor.bootCacheControl word)) := by
  rintro i hi bank ⟨-, hzero⟩
  rw [Vendor.bootCacheControl, Vendor.getLsbD_withWriteAround _ _ (by omega), if_neg (by omega),
    if_neg (by omega), UInt64.toBitVec_or, BitVec.getLsbD_or, Bool.or_eq_false_iff] at hzero
  match i, hi with
  | 0, _ => exact absurd hzero.2 (by decide)
  | 1, _ => exact absurd hzero.2 (by decide)

/-- Boot leaves the caches on. -/
theorem keepsOn_of_bootWrite (h : BootWrite e) : KeepsOn e := by
  cases e with
  | csrWrite csr value =>
    cases csr with
    | mcacheCtl =>
      obtain ⟨word, rfl⟩ := h
      exact keepsOn_bootCacheControl word
    | _ => exact keepsOn_csrWrite (by simp) value
  | _ => exact keepsOn_of_csrWrite?_eq_none rfl

/-- **No hook but a vendor call turns a cache off.** -/
theorem Hook.emits_keepsOn (h : ∀ c, hook ≠ .call c) (pl : Platform) :
    Emits KeepsOn (hook.run pl) := by
  have hact : Emits KeepsOn (hook.act pl) := (emits_bootWrite h).mono fun _ ↦ keepsOn_of_bootWrite
  rw [hook.run_eq]
  exact .bind hact fun _ ↦ .pure _

/-- The hook is a call that overwrites the cache control register with a word in which the bit is
zero, and the bit is one. -/
def Hook.OverwritesOff (i : Nat) (bank : CsrFile) (hook : Hook) : Prop :=
  ∃ args, hook = .call ⟨Vendor.extensionId, 2, args⟩ ∧
    (bank.get .mcacheCtl).toBitVec.getLsbD i = true ∧ args.first.toBitVec.getLsbD i = false

theorem Hook.overwritesOff_call_iff {c : Vendor.Call} :
    (Hook.call c).OverwritesOff i bank ↔ c.OverwritesOff i bank := by
  constructor
  · rintro ⟨args, ⟨⟩, hbits⟩
    exact ⟨rfl, rfl, hbits⟩
  · rintro ⟨hext, hfun, hbits⟩
    obtain ⟨extension, function, args⟩ := c
    subst hext hfun
    exact ⟨args, rfl, hbits⟩

/-- A hook that never turns the cache off has nothing to follow. -/
theorem followedUp_of_keepsOn (hes : ∀ e ∈ es, KeepsOn e) (hi : i < 2) :
    FollowedUp i due bank es :=
  followedUp_of_forall fun e he ↦ hes e he i hi

/-- **A hook makes consistent what it turns off, unless it overwrites the register as a whole.** The
data cache, bit 1, is written back and invalidated; for the instruction cache, bit 0, a fence is
executed. -/
theorem followed_up_iff (hook : Hook) (pl : Platform) (m : Machine) :
    ∃ es, m.Leads es ((hook.run pl).after m) ∧
      (FollowedUp 1 (.csrWrite .mcctlCommand 6) m.csrs es ↔ ¬ hook.OverwritesOff 1 m.csrs) ∧
      (FollowedUp 0 .fence m.csrs es ↔ ¬ hook.OverwritesOff 0 m.csrs) := by
  by_cases hcall : ∃ c, hook = .call c
  · obtain ⟨c, rfl⟩ := hcall
    obtain ⟨es, reply, t', hrun, hsteering⟩ := Vendor.runs_answer_steering pl.regions m.csrs c
    have hruns : Runs ((Hook.call c).run pl) m.csrs (es ++ []) (.ok { pl with regions := t' }) :=
      (Platform.runs_call hrun).bind (runs_pure _ _)
    have hafter : ((Hook.call c).run pl).after m = m.perform es := by
      rw [← es.append_nil]
      exact after_of_ok hruns.apply
    refine ⟨es, hafter ▸ m.leads_perform es, ?_, ?_⟩
    · rw [Hook.overwritesOff_call_iff]
      exact hsteering.followedUp_iff Vendor.Control.flush_mem_aftermath (by decide)
    · rw [Hook.overwritesOff_call_iff]
      exact hsteering.followedUp_iff Vendor.Control.fence_mem_aftermath (by decide)
  · have hno : ∀ c, hook ≠ .call c := fun c hc ↦ hcall ⟨c, hc⟩
    have hoff : ∀ i, ¬ hook.OverwritesOff i m.csrs := fun _ ⟨_, hc, _⟩ ↦ hno _ hc
    obtain ⟨es, hes, hkeeps⟩ := Hook.emits_keepsOn hno pl m
    exact ⟨es, hes, iff_of_true (followedUp_of_keepsOn hkeeps (by decide)) (hoff 1),
      iff_of_true (followedUp_of_keepsOn hkeeps (by decide)) (hoff 0)⟩

/-- Both caches are on, and the register is overwritten with zero. Nothing follows. -/
theorem overwrite_not_followed_up :
    ∃ es, ({ watchdog := ⟨1, 0, 0, 0⟩, csrs := CsrFile.zero.set .mcacheCtl 3 } : Machine).Leads es
        (((Hook.call ⟨Vendor.extensionId, 2, { first := 0 }⟩).run { settings := {} }).after
          { watchdog := ⟨1, 0, 0, 0⟩, csrs := CsrFile.zero.set .mcacheCtl 3 }) ∧
      ¬ FollowedUp 1 (.csrWrite .mcctlCommand 6) (CsrFile.zero.set .mcacheCtl 3) es ∧
      ¬ FollowedUp 0 .fence (CsrFile.zero.set .mcacheCtl 3) es := by
  refine ⟨[.csrWrite .mcacheCtl 0], ⟨rfl, rfl, rfl, rfl, rfl, rfl⟩, fun h ↦ ?_, fun h ↦ ?_⟩
  · exact List.not_mem_nil (h [] _ [] rfl ⟨by decide, by decide⟩)
  · exact List.not_mem_nil (h [] _ [] rfl ⟨by decide, by decide⟩)

end Board

end BringUp
