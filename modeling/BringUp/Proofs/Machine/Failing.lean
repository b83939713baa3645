import BringUp.Proofs.Machine.Wait

/-!
# How actions fail

With which causes an action can fail (`Firmware.FailsWith`). An access does not fail: it ends, or an
overflow or the watchdog stops it. So an action made of accesses, delays and log records alone is
`Unfailing`, and a wait for a test that does not fail has one cause only, that its time ran out.

The last section has the runs of waits and sequences by what they emit.
-/

namespace BringUp

namespace Firmware

variable {α β : Type} {x : Firmware α} {f : α → Firmware β} {q : Failure → Prop}

/-- If the action fails, its cause satisfies `q`. -/
def FailsWith (q : Failure → Prop) (x : Firmware α) : Prop :=
  ∀ m cause m', x m = .error (.failure cause) m' → q cause

/-- The action may stop, but not by a failure. -/
abbrev Unfailing (x : Firmware α) : Prop :=
  FailsWith (fun _ ↦ False) x

namespace FailsWith

theorem pure (a : α) : FailsWith q (pure a : Firmware α) :=
  fun _ _ _ ↦ nofun

theorem log (level : Level) (text : String) : FailsWith q (log level text) :=
  fun _ _ _ ↦ nofun

theorem now : FailsWith q now :=
  fun _ _ _ h ↦ absurd h now_ne_failure

theorem fail {cause : Failure} (h : q cause) : FailsWith q (fail cause : Firmware α) := by
  rintro m _ m' ⟨⟩
  exact h

/-- A computation that can leave the word does not fail. -/
theorem liftExcept {r : Except Stop α} (h : ∀ cause, r ≠ .error (.failure cause)) :
    FailsWith q (liftExcept r : Firmware α) := by
  intro m cause m' hrun
  cases r with
  | ok _ => cases hrun
  | error stop =>
    cases hrun
    exact absurd rfl (h cause)

theorem bind (hx : FailsWith q x) (hf : ∀ a, FailsWith q (f a)) : FailsWith q (x >>= f) := by
  intro m cause m' h
  rcases bind_eq_error_iff.1 h with hfirst | ⟨a, m₁, -, hrest⟩
  · exact hx m cause m' hfirst
  · exact hf a m₁ cause m' hrest

theorem ite {c : Prop} [Decidable c] {y : Firmware α} (hx : FailsWith q x) (hy : FailsWith q y) :
    FailsWith q (if c then x else y) := by
  split
  · exact hx
  · exact hy

/-- A failure that was caught may be passed on. -/
theorem attempt_bind {f : Except Failure α → Firmware β} (hx : FailsWith q x)
    (hok : ∀ a, FailsWith q (f (.ok a)))
    (hfail : ∀ cause, q cause → FailsWith q (f (.error cause))) :
    FailsWith q (x.attempt >>= f) := by
  intro m cause m' h
  rcases bind_eq_error_iff.1 h with hattempt | ⟨r, m₁, hattempt, hrest⟩
  · exact absurd hattempt attempt_ne_failure
  · rcases attempt_eq_ok hattempt with ⟨a, rfl, -⟩ | ⟨caught, rfl, hrun⟩
    · exact hok a m₁ cause m' hrest
    · exact hfail caught (hx m caught m₁ hrun) m₁ cause m' hrest

theorem watchFor (micros start : UInt64) (n : Nat) : FailsWith q (watchFor micros start n) := by
  induction n with
  | zero => exact fun _ _ _ ↦ nofun
  | succ n ih => exact .bind .now fun _ ↦ .ite ih (.pure _)

theorem delay (micros : UInt64) : FailsWith q (delay micros) := by
  have hmodify : ∀ g : Machine → Machine, FailsWith q (modify g : Firmware PUnit) :=
    fun _ _ _ _ ↦ nofun
  have hget : FailsWith q (get : Firmware Machine) := fun _ _ _ ↦ nofun
  have hrounds : FailsWith q rounds := fun _ _ _ ↦ nofun
  refine .bind (hmodify _) fun _ ↦ .bind hget fun m ↦ ?_
  cases m.clock.passing with
  | winds => exact hmodify _
  | watched => exact .bind .now fun _ ↦ .bind hrounds fun _ ↦ watchFor _ _ _

/-- A wait for a test that does not fail can only run out of time. -/
theorem waitUntil {ready : Firmware Bool} (hready : Unfailing ready) (deadline : Deadline)
    {what : String} (h : ∀ waited, q (.timeout what waited)) :
    FailsWith q (waitUntil deadline what ready) := by
  intro m cause m' hrun
  rcases waitUntil_eq_failure hrun with ⟨m₁, htest⟩ | ⟨⟨_, waited, -, hcause, -⟩, -⟩
  · exact (hready m₁ cause m' htest).elim
  · exact hcause ▸ h waited

end FailsWith

end Firmware

namespace Block

open Firmware

variable {q : Failure → Prop} (b : Block) (offset : UInt64)

theorem failsWith_read : FailsWith q (b.read offset : Firmware UInt32) :=
  fun _ _ _ h ↦ absurd h read_ne_failure

theorem failsWith_write (value : UInt32) : FailsWith q (b.write offset value : Firmware Unit) :=
  fun _ _ _ h ↦ absurd h write_ne_failure

theorem failsWith_update (clear set : UInt32) :
    FailsWith q (b.update offset clear set : Firmware Unit) :=
  .bind (b.failsWith_read offset) fun _ ↦ b.failsWith_write offset _

theorem failsWith_writeInTurn (first second : UInt32) :
    FailsWith q (b.writeInTurn offset first second : Firmware Unit) :=
  .bind (b.failsWith_write offset first) fun _ ↦ b.failsWith_write offset second

end Block

/-! ### What runs emit -/

namespace Firmware

variable {α β : Type} {x : Firmware α} {f : α → Firmware β} {m m' : Machine} {p : Event → Prop}

/-- While a wait is busy, it emits what its test emits, and readings of the clock. -/
theorem Busy.leads {ready : Firmware Bool} (h : Busy ready m m') (hready : Emits p ready)
    (hclock : ∀ t, p (.clockRead t)) : ∃ es, m.Leads es m' ∧ ∀ e ∈ es, p e := by
  induction h with
  | refl m => exact ⟨[], .refl m, List.forall_mem_nil _⟩
  | test htest _ ih =>
    obtain ⟨es, hes, hp⟩ := hready.of_ok htest
    obtain ⟨fs, hfs, hq⟩ := ih
    exact ⟨es ++ fs, hes.trans hfs, List.forall_mem_append.2 ⟨hp, hq⟩⟩
  | tick hnow _ ih =>
    obtain ⟨fs, hfs, hq⟩ := ih
    exact ⟨_, (now_eq_ok hnow).1.trans hfs, List.forall_mem_cons.2 ⟨hclock _, hq⟩⟩

/-- The first part of a sequence that ended, by what it emitted. -/
theorem Emits.bind_eq_ok (hx : Emits p x) {b : β} (h : (x >>= f) m = .ok b m') :
    ∃ a m₁ es, m.Leads es m₁ ∧ (∀ e ∈ es, p e) ∧ f a m₁ = .ok b m' := by
  obtain ⟨a, m₁, hfirst, hrest⟩ := bind_eq_ok_iff.1 h
  obtain ⟨es, hes, hp⟩ := hx.of_ok hfirst
  exact ⟨a, m₁, es, hes, hp, hrest⟩

end Firmware

end BringUp
