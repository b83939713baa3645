import BringUp.Console.Recorder
import BringUp.Proofs.Console.Routing

/-!
# Output in pieces

A string may be handed over in pieces, each in any of the ways there are to write with newlines
expanded: as bytes, as a buffer that tells how much was taken, as a buffer until nothing is left, as
a text, as a character. `HandsOver ws whole` says that the writes `ws` are a string `whole` cut up
in this way. A text and a character cut at the ends of characters only; bytes cut anywhere, also
between a carriage return and a line feed.

Expanding looks at one byte at a time and remembers nothing, so the device cannot tell how the
string was cut, whatever the device is (`sendAll_of_handsOver`). What it receives determines the
string: each line feed has the carriage return in front that was inserted for it
(`expand_eq_append_lf`), and taking these out gives the string back.
-/

namespace BringUp

namespace Console

open Newline

/-! ### Strings handed over -/

/-- What is handed over to be sent with newlines expanded. A single byte is none, for it goes out as
it is. -/
def Writing.given? : Writing → Option (List UInt8)
  | byte _ => none
  | bytes bs | buffer bs | all bs => some bs
  | text s => some s.toUTF8.toList
  | char c => some (String.utf8EncodeChar c)
  | flush => some []

/-- The writes hand over a string, one piece after the other. -/
inductive HandsOver : List Writing → List UInt8 → Prop
  /-- Nothing is left. -/
  | nil : HandsOver [] []
  /-- A piece comes first. -/
  | cons {w : Writing} {ws : List Writing} {piece rest : List UInt8}
    (h : w.given? = some piece) (hrest : HandsOver ws rest) : HandsOver (w :: ws) (piece ++ rest)

theorem HandsOver.singleton {w : Writing} {whole : List UInt8} (h : w.given? = some whole) :
    HandsOver [w] whole := by
  rw [← whole.append_nil]
  exact .cons h .nil

/-- Any text can be handed over character by character. -/
theorem handsOver_chars (s : String) : HandsOver (s.toList.map .char) s.toUTF8.toList := by
  rw [toList_toUTF8]
  induction s.toList with
  | nil => exact .nil
  | cons c cs ih => exact .cons rfl ih

/-- What is handed over goes out as a terminal is to get it. -/
theorem Writing.sent_of_given? {w : Writing} {piece : List UInt8} (h : w.given? = some piece) :
    w.sent = forTerminal piece := by
  cases w with
  | byte b => cases h
  | text s =>
    cases h
    rw [sent, toList_toUTF8]
  | _ =>
    cases h
    rfl

/-! ### Writes in turn -/

section SendAll

variable {m : Type → Type} [Monad m] {δ : Type} [Sink m δ]

/-- Makes writes in turn. -/
def sendAll (console : Console δ) (ws : List Writing) : m (Console δ) :=
  ws.foldlM (fun console w ↦ Prod.snd <$> console.send w) console

/-- **No device can tell how a string was cut**: pieces do what one write of the whole does. -/
theorem sendAll_of_handsOver [LawfulMonad m] {ws : List Writing} {whole : List UInt8}
    (h : HandsOver ws whole) (d : δ) :
    sendAll ⟨some d⟩ ws = (fun d' ↦ ⟨some d'⟩) <$> (Sink.write d whole : m δ) := by
  induction h generalizing d with
  | nil => exact (map_pure (f := m) (Console.mk ∘ some) d).symm
  | @cons w ws piece rest hgiven _ ih =>
    have hfirst : Prod.snd <$> (send ⟨some d⟩ w : m _) =
        (fun d' ↦ ⟨some d'⟩) <$> Sink.write d piece := by
      simp only [send_of_active rfl, Writing.sent_of_given? hgiven, Sink.write_eq,
        map_eq_pure_bind, bind_assoc, pure_bind]
    calc sendAll ⟨some d⟩ (w :: ws)
        = Prod.snd <$> send ⟨some d⟩ w >>= fun console ↦ sendAll console ws := List.foldlM_cons
      _ = Sink.write d piece >>= fun d' ↦ sendAll ⟨some d'⟩ ws := by rw [hfirst, bind_map_left]
      _ = (fun d' ↦ ⟨some d'⟩) <$> Sink.write d (piece ++ rest) := by
        simp only [ih, Sink.write_append, map_bind]

end SendAll

/-- What a device that is in use receives from writes made in turn. -/
def received (ws : List Writing) : List UInt8 :=
  (Id.run (sendAll ⟨some (Recorder.mk "" #[])⟩ ws)).sink.elim [] (·.sent.toList)

/-- It receives the string that they hand over, with its newlines expanded. -/
theorem received_of_handsOver {ws : List Writing} {whole : List UInt8} (h : HandsOver ws whole) :
    received ws = expand whole := by
  rw [received, sendAll_of_handsOver h]
  exact Recorder.toList_sent_putAll _ _

/-- **Newline expansion loses nothing, and does not depend on how the output is split.** Handing
over a string in pieces, in any of the ways that expand newlines, does to every device what one
write of the whole does, so the same bytes are received. Before each line feed that is received
comes the carriage return that was inserted for it: what was received up to there is what the device
receives from the part of the string before that line feed. Taking out one carriage return before
each line feed gives back the string, so pieces of another string are received as other bytes. -/
theorem received_in_pieces {ws : List Writing} {whole : List UInt8} (h : HandsOver ws whole) :
    (∀ {m : Type → Type} [Monad m] [LawfulMonad m] {δ : Type} [Sink m δ] (d : δ),
      sendAll ⟨some d⟩ ws = (fun d' ↦ ⟨some d'⟩) <$> (Sink.write d whole : m δ)) ∧
    received ws = received [.bytes whole] ∧
    (∀ front back, received ws = front ++ lf :: back →
      ∃ before after, whole = before ++ lf :: after ∧ front = received [.bytes before] ++ [cr] ∧
        back = received [.bytes after]) ∧
    contract (received ws) = whole ∧
    ∀ ws' whole', HandsOver ws' whole' → whole' ≠ whole → received ws' ≠ received ws := by
  have hbytes (bytes : List UInt8) : received [.bytes bytes] = expand bytes :=
    received_of_handsOver (.singleton rfl)
  refine ⟨fun d ↦ sendAll_of_handsOver h d, ?_, fun front back hfront ↦ ?_, ?_,
    fun ws' whole' h' hne heq ↦ hne ?_⟩
  · rw [received_of_handsOver h, hbytes]
  · rw [received_of_handsOver h] at hfront
    simpa only [hbytes] using expand_eq_append_lf hfront
  · rw [received_of_handsOver h, contract_expand]
  · rw [received_of_handsOver h, received_of_handsOver h'] at heq
    rw [← contract_expand whole', heq, contract_expand]

/-- A string that holds the pair already, cut between the two: the carriage return that it holds is
received besides the one that is inserted, and only the latter is taken out again. -/
theorem received_in_pieces_split_pair :
    HandsOver [.bytes [97, 13], .char '\n', .all [], .text "b\n", .buffer [10, 99]]
        [97, 13, 10, 98, 10, 10, 99] ∧
      received [.bytes [97, 13], .char '\n', .all [], .text "b\n", .buffer [10, 99]] =
        [97, 13, 13, 10, 98, 13, 10, 13, 10, 99] ∧
      contract [97, 13, 13, 10, 98, 13, 10, 13, 10, 99] = [97, 13, 10, 98, 10, 10, 99] ∧
      received [.all [97, 10, 98, 10, 10, 99]] ≠ [97, 13, 13, 10, 98, 13, 10, 13, 10, 99] := by
  have hbytes : Writing.given? (.bytes [97, 13]) = some [97, 13] := rfl
  have hchar : Writing.given? (.char '\n') = some [10] := rfl
  have hall : Writing.given? (.all []) = some [] := rfl
  have htext : Writing.given? (.text "b\n") = some [98, 10] := by
    rw [Writing.given?, toList_toUTF8]
    rfl
  have h : HandsOver [.bytes [97, 13], .char '\n', .all [], .text "b\n", .buffer [10, 99]]
      [97, 13, 10, 98, 10, 10, 99] :=
    .cons hbytes <| .cons hchar <| .cons hall <| .cons htext <| .singleton rfl
  obtain ⟨-, hreceived, -, hcontract, hother⟩ := received_in_pieces h
  have hwhole : received [.bytes [97, 13, 10, 98, 10, 10, 99]] =
      [97, 13, 13, 10, 98, 13, 10, 13, 10, 99] := by decide
  rw [hreceived, hwhole] at hcontract hother
  exact ⟨h, hreceived.trans hwhole, hcontract,
    hother [.all [97, 10, 98, 10, 10, 99]] _ (.singleton rfl) (by decide)⟩

end Console

end BringUp
