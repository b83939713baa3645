import BringUp.Console.Sink

/-!
# Recorders

A sink that keeps what it was sent.
-/

namespace BringUp

/-- A named sink and the bytes it was sent. -/
structure Recorder where
  /-- Name of the sink. -/
  name : String
  /-- Bytes sent since the sink was made. -/
  sent : Array UInt8 := #[]
  deriving Repr, DecidableEq, Inhabited

instance : Sink Id Recorder where
  name := Recorder.name
  put sink b := { sink with sent := sink.sent.push b }

namespace Recorder

/-- Bytes are kept in the order in which they were sent. -/
theorem toList_sent_putAll (sink : Recorder) (bytes : List UInt8) :
    (Id.run (Sink.putAll sink bytes)).sent.toList = sink.sent.toList ++ bytes := by
  induction bytes generalizing sink with
  | nil => exact (List.append_nil _).symm
  | cons b bs ih =>
    have h := ih { sink with sent := sink.sent.push b }
    rw [Array.toList_push, List.append_assoc] at h
    exact h

end Recorder

end BringUp
