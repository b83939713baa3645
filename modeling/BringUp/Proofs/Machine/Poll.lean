import BringUp.Proofs.Machine.Registers

/-!
# Polling a register

A wait whose test reads a register and looks at the value. Whatever the device does and whatever the
deadline is, a wait that ends or runs out of time has read the register once at least, and nothing
else was accessed. It ends exactly if the last value passes the test, and no value before that one
did (`Polled`, `polled_of_waitUntil`).
-/

namespace BringUp

open Firmware

variable {b : Block} {offset : UInt64} {p : UInt32 → Bool} {m m' : Machine} {deadline : Deadline}
  {what : String}

namespace Block

/-- Reads a register and tests the value. -/
def test (b : Block) (offset : UInt64) (p : UInt32 → Bool) : Firmware Bool := do
  return p (← b.read offset)

/-- A reading of a register. -/
def readEvent (b : Block) (offset : UInt64) (value : UInt32) : Event :=
  .busRead (b.layout.width offset) (b.base + offset) value

theorem test_eq_ok {answer : Bool} (h : b.test offset p m = .ok answer m') :
    ∃ v, m.Transacts [b.readEvent offset v] m' ∧ p v = answer := by
  obtain ⟨v, m₁, hread, hpure⟩ := bind_eq_ok_iff.1 h
  cases hpure
  exact ⟨v, .of_read hread, rfl⟩

/-- The test raises no failure. -/
theorem test_ne_failure {cause : Failure} : b.test offset p m ≠ .error (.failure cause) m' := by
  intro h
  rcases bind_eq_error_iff.1 h with hread | ⟨v, m₁, -, hpure⟩
  · exact read_ne_failure hread
  · cases hpure

/-- While the wait is busy, the register is read and the values fail the test. -/
theorem transacts_of_busy (h : Busy (b.test offset p) m m') :
    ∃ early : List UInt32, m.Transacts (early.map (b.readEvent offset)) m' ∧
      ∀ v ∈ early, p v = false := by
  induction h with
  | refl m => exact ⟨[], .refl m, List.forall_mem_nil _⟩
  | test htest _ ih =>
    obtain ⟨v, hread, hv⟩ := test_eq_ok htest
    obtain ⟨early, hrest, hearly⟩ := ih
    exact ⟨v :: early, hread.trans hrest, List.forall_mem_cons.2 ⟨hv, hearly⟩⟩
  | tick hnow _ ih =>
    obtain ⟨early, hrest, hearly⟩ := ih
    exact ⟨early, (Machine.Transacts.of_now hnow).trans hrest, hearly⟩

/-- A register was polled with these values: the wait ended exactly if the last one passes the test,
no other one does, and without such a value the time had run out. -/
structure Polled (p : UInt32 → Bool) (deadline : Deadline) (what : String)
    (early : List UInt32) (last : UInt32) (r : Except Failure Unit) : Prop where
  /-- All values but the last fail the test. -/
  early_eq : ∀ v ∈ early, p v = false
  /-- The last one decides. -/
  ok_iff : r = .ok () ↔ p last = true
  /-- A failure is a timeout: at least the limit had passed. -/
  timeout : r ≠ .ok () → ∃ limit waited, deadline = .after limit ∧
    r = .error (.timeout what waited) ∧ limit ≤ waited

/-- Readings that fail the test, then one that may pass it. -/
theorem transacts_concat {early : List UInt32} {last : UInt32} {m₁ : Machine}
    (h : m.Transacts (early.map (b.readEvent offset)) m₁)
    (hlast : m₁.Transacts [b.readEvent offset last] m') :
    m.Transacts ((early ++ [last]).map (b.readEvent offset)) m' := by
  rw [List.map_append]
  exact h.trans hlast

/-- **A wait polls the register until a value passes the test or the time has run out.** -/
theorem polled_of_waitUntil {r : Except Failure Unit}
    (h : (waitUntil deadline what (b.test offset p)).attempt m = .ok r m') :
    ∃ (early : List UInt32) (last : UInt32),
      m.Transacts ((early ++ [last]).map (b.readEvent offset)) m' ∧
        Polled p deadline what early last r := by
  rcases attempt_eq_ok h with ⟨⟨⟩, rfl, hwait⟩ | ⟨cause, rfl, hwait⟩
  · obtain ⟨m₁, hbusy, htrue⟩ := waitUntil_eq_ok hwait
    obtain ⟨early, hpolls, hearly⟩ := transacts_of_busy hbusy
    obtain ⟨last, hread, hlast⟩ := test_eq_ok htrue
    exact ⟨early, last, transacts_concat hpolls hread, hearly, iff_of_true rfl hlast,
      fun hne ↦ absurd rfl hne⟩
  · rcases waitUntil_eq_failure hwait with ⟨m₁, htest⟩ | ⟨⟨limit, waited, hlimit, rfl, hle⟩, hout⟩
    · exact absurd htest test_ne_failure
    · obtain ⟨m₁, m₂, t, hbusy, hfalse, hnow⟩ := hout
      obtain ⟨early, hpolls, hearly⟩ := transacts_of_busy hbusy
      obtain ⟨last, hread, hlast⟩ := test_eq_ok hfalse
      have hdone := hread.trans (.of_now hnow)
      refine ⟨early, last, transacts_concat hpolls hdone, hearly, ?_,
        fun _ ↦ ⟨limit, waited, hlimit, rfl, hle⟩⟩
      rw [hlast]
      exact iff_of_false nofun nofun

end Block

end BringUp
