import BringUp.Console.Sink

/-!
# The console

A place for at most one sink. Without one, a raw byte is dropped, and nothing else can be written.
-/

namespace BringUp

/-- At most one sink. -/
structure Console (δ : Type) where
  /-- The sink in use. -/
  sink : Option δ
  deriving Repr, DecidableEq, Inhabited

namespace Console

variable {m : Type → Type} {δ : Type}

/-- No sink. -/
def empty : Console δ := ⟨none⟩

/-- Whether a sink is in use. -/
def isActive (console : Console δ) : Bool :=
  console.sink.isSome

/-- Puts a sink in use and gives back the one it replaces. -/
def set (console : Console δ) (sink : δ) : Option δ × Console δ :=
  (console.sink, ⟨some sink⟩)

/-- Takes the sink out of use. -/
def take (console : Console δ) : Option δ × Console δ :=
  (console.sink, empty)

/-- Does something with the sink in use, if there is one. -/
def withSink [Monad m] {α : Type} (console : Console δ) (use : δ → m (α × δ)) :
    m (Option α × Console δ) :=
  match console.sink with
  | some sink => do
    let (a, sink) ← use sink
    return (some a, ⟨some sink⟩)
  | none => return (none, console)

/-- Sends one byte as it is; without a sink it is dropped. -/
def putByte [Monad m] [Sink m δ] (console : Console δ) (b : UInt8) : m (Console δ) :=
  match console.sink with
  | some sink => return ⟨some (← Sink.put sink b)⟩
  | none => return console

@[simp] theorem isActive_empty : (empty : Console δ).isActive = false := rfl

@[simp] theorem isActive_set (console : Console δ) (sink : δ) :
    (console.set sink).2.isActive = true := rfl

end Console

end BringUp
