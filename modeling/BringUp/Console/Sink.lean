import BringUp.Text.Newline

/-!
# Sinks

A sink takes one byte at a time. Everything else that is sent to a console is written here once,
over that one operation: texts and buffers go out with their newlines expanded, and formatted
output is its pieces in order.
-/

namespace BringUp

/-- A type of byte sinks, whose bytes are sent by actions in `m`. -/
class Sink (m : outParam (Type → Type)) (δ : Type) where
  /-- Name of the sink. -/
  name : δ → String
  /-- Sends one byte and gives the sink afterwards. -/
  put : δ → UInt8 → m δ

namespace Sink

variable {m : Type → Type} [Monad m] {δ : Type} [Sink m δ]

/-- Sends bytes as they are. -/
def putAll (sink : δ) (bytes : List UInt8) : m δ :=
  bytes.foldlM put sink

/-- Sends bytes with their newlines expanded. -/
def write (sink : δ) (bytes : List UInt8) : m δ :=
  putAll sink (Newline.expand bytes)

/-- Sends a text with its newlines expanded. -/
def writeText (sink : δ) (text : String) : m δ :=
  write sink text.toUTF8.toList

/-- Sends the pieces of a formatted text in order. -/
def writePieces (sink : δ) (pieces : List String) : m δ :=
  pieces.foldlM writeText sink

/-- Sends a buffer and gives its length, in which the inserted bytes do not count. -/
def writeBuffer (sink : δ) (bytes : List UInt8) : m (Nat × δ) := do
  return (bytes.length, ← write sink bytes)

/-- Sending in two parts is sending the whole. -/
theorem write_append [LawfulMonad m] (sink : δ) (xs ys : List UInt8) :
    write sink (xs ++ ys) = write (m := m) sink xs >>= fun sink ↦ write sink ys := by
  simp only [write, putAll, Newline.expand_append, List.foldlM_append]

end Sink

end BringUp
