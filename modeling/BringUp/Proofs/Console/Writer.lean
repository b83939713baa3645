import BringUp.Console.Sink
import BringUp.Proofs.Text.Terminal

/-!
# Writing whole buffers

A writer takes a buffer and tells how much of it was taken; a caller that wants all of it sent
writes what is left until nothing is. A sink takes all of a buffer at once, so that is the same as
one write (`writeAll_eq`).
-/

namespace BringUp.Sink

variable {m : Type → Type} [Monad m] {δ : Type} [Sink m δ]

/-- What is written goes out as a terminal is to get it. -/
theorem write_eq (sink : δ) (bytes : List UInt8) :
    (write sink bytes : m δ) = putAll sink (Newline.forTerminal bytes) := by
  rw [write, Newline.expand_eq_forTerminal]

/-- Writes a buffer, and then what is left of it, in a number of rounds. -/
def writeRounds (sink : δ) : Nat → List UInt8 → m δ
  | 0, _ => return sink
  | _ + 1, [] => return sink
  | n + 1, b :: bytes => do
    let (taken, sink) ← writeBuffer sink (b :: bytes)
    writeRounds sink n ((b :: bytes).drop taken)

/-- Writes a buffer until nothing is left of it; each round takes a byte at least. -/
def writeAll (sink : δ) (bytes : List UInt8) : m δ :=
  writeRounds sink bytes.length bytes

theorem writeRounds_nil (sink : δ) (n : Nat) : (writeRounds sink n [] : m δ) = pure sink := by
  cases n <;> rfl

theorem writeAll_eq [LawfulMonad m] (sink : δ) (bytes : List UInt8) :
    (writeAll sink bytes : m δ) = write sink bytes := by
  cases bytes with
  | nil => rfl
  | cons b bytes =>
    have hrest : ∀ sink : δ, (writeRounds sink bytes.length
        ((b :: bytes).drop (b :: bytes).length) : m δ) = pure sink := fun sink ↦ by
      rw [List.drop_length, writeRounds_nil]
    simp only [writeAll, List.length_cons, writeRounds, writeBuffer, bind_assoc, pure_bind]
    simp only [← List.length_cons (a := b), hrest, bind_pure]

end BringUp.Sink
