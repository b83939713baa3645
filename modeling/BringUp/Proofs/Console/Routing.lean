import BringUp.Console.Basic
import BringUp.Proofs.Console.Writer

/-!
# Which device receives what

Runs of operations on a console: devices are put in use and taken out of it, and bytes are written
in every way there is. A device is held through a `Handle` here, and what it receives is kept at its
place outside of the console. So a write that reached a device after it was replaced would be seen,
and so would one that reached a device never in use.

Whatever the devices are, a write sends its bytes to the device in use, one after the other, and
does nothing else (`send_of_active`, `send_of_inactive`). What a whole run does is then told from
the operations alone: which device is in use after them (`inUse`), what each of them answers
(`Operation.reply`), and what was sent to a place (`sentTo`).
-/

namespace BringUp.Console

/-! ### Writing -/

/-- A way to write to the console. -/
inductive Writing
  /-- One byte as it is. -/
  | byte (b : UInt8)
  /-- Bytes, with nothing told about them. -/
  | bytes (bytes : List UInt8)
  /-- A text, through the device or through a writer. -/
  | text (text : String)
  /-- One character. -/
  | char (c : Char)
  /-- A buffer, whose length is told. -/
  | buffer (bytes : List UInt8)
  /-- A buffer, until nothing is left of it. -/
  | all (bytes : List UInt8)
  /-- Nothing, but waiting for what was written; no device keeps bytes back. -/
  | flush

/-- What an operation answers. -/
inductive Reply (δ : Type)
  /-- The device that was in use. -/
  | device (old : Option δ)
  /-- It was done. -/
  | done
  /-- So many bytes were taken. -/
  | taken (n : Nat)
  /-- There is no device to write to. -/
  | absent
  deriving Repr, DecidableEq, Inhabited

/-- An operation on the console. -/
inductive Operation (δ : Type)
  /-- Put a device in use. -/
  | set (device : δ)
  /-- Take the device out of use. -/
  | take
  /-- Write. -/
  | write (w : Writing)

section Run

variable {m : Type → Type} [Monad m] {δ : Type} [Sink m δ]

/-- Does something with the device in use, if there is one. -/
def useSink (console : Console δ) (use : δ → m (Reply δ × δ)) : m (Reply δ × Console δ) := do
  let (reply?, console) ← console.withSink use
  return (reply?.getD .absent, console)

/-- Writes to the device in use. -/
def send (console : Console δ) : Writing → m (Reply δ × Console δ)
  | .byte b => return (.done, ← console.putByte b)
  | .bytes bytes => console.useSink fun d ↦ return (.done, ← Sink.write d bytes)
  | .text text => console.useSink fun d ↦ return (.done, ← Sink.writeText d text)
  | .char c => console.useSink fun d ↦ return (.done, ← Sink.writeText d c.toString)
  | .buffer bytes => console.useSink fun d ↦ do
    let (n, d) ← Sink.writeBuffer d bytes
    return (.taken n, d)
  | .all bytes => console.useSink fun d ↦ return (.done, ← Sink.writeAll d bytes)
  | .flush => console.useSink fun d ↦ return (.done, d)

/-- Carries out an operation. -/
def act (console : Console δ) : Operation δ → m (Reply δ × Console δ)
  | .set device =>
    let (old, console) := console.set device
    return (.device old, console)
  | .take =>
    let (old, console) := console.take
    return (.device old, console)
  | .write w => console.send w

/-- What is seen after an operation. -/
structure Moment (δ σ : Type) where
  /-- What the operation answered. -/
  reply : Reply δ
  /-- The device in use. -/
  inUse : Option δ
  /-- What is seen of everything else. -/
  seen : σ

/-- Carries out operations in turn and looks around after each of them. -/
def watch {σ : Type} (look : m σ) (console : Console δ) :
    List (Operation δ) → m (List (Moment δ σ))
  | [] => return []
  | op :: ops => do
    let (reply, console) ← console.act op
    let seen ← look
    let rest ← console.watch look ops
    return ⟨reply, console.sink, seen⟩ :: rest

end Run

namespace Writing

/-- The bytes that go out: one byte as it is, and everything else as a terminal is to get it. -/
def sent : Writing → List UInt8
  | byte b => [b]
  | bytes bs | buffer bs | all bs => Newline.forTerminal bs
  | text s => Newline.forTerminal (s.toList.flatMap String.utf8EncodeChar)
  | char c => Newline.forTerminal (String.utf8EncodeChar c)
  | flush => []

/-- What is answered: a buffer is taken whole, and without a device only a single byte can be
written. -/
def reply {δ : Type} : Writing → Option δ → Reply δ
  | byte _, _ => .done
  | buffer bs, some _ => .taken bs.length
  | _, some _ => .done
  | _, none => .absent

end Writing

/-! ### One write -/

section Send

variable {m : Type → Type} [Monad m] [LawfulMonad m] {δ : Type} {console : Console δ} {d : δ}

theorem useSink_of_active (h : console.sink = some d) (use : δ → m (Reply δ × δ)) :
    console.useSink use = do
      let r ← use d
      return (r.1, ⟨some r.2⟩) := by
  obtain ⟨_⟩ := console
  obtain rfl := h
  simp only [useSink, withSink, bind_assoc, pure_bind, Option.getD_some]

theorem useSink_of_inactive (h : console.sink = none) (use : δ → m (Reply δ × δ)) :
    console.useSink use = pure (.absent, console) := by
  obtain ⟨_⟩ := console
  obtain rfl := h
  exact pure_bind _ _

variable [Sink m δ]

/-- Without a device nothing is sent. -/
theorem send_of_inactive (h : console.sink = none) (w : Writing) :
    console.send w = (pure (w.reply none, console) : m _) := by
  rcases w with b | bs | s | c | bs | bs | -
  · rw [send, putByte, h, pure_bind, Writing.reply]
  all_goals exact useSink_of_inactive h _

/-- **The bytes of a write go to the device in use**, one after the other. -/
theorem send_of_active (h : console.sink = some d) (w : Writing) :
    console.send w = (do
      let d' ← Sink.putAll d w.sent
      return (w.reply (some d), ⟨some d'⟩) : m _) := by
  rcases w with b | bs | s | c | bs | bs | -
  · simp only [send, putByte, h, Writing.sent, Writing.reply, Sink.putAll, List.foldlM_cons,
      List.foldlM_nil, bind_assoc, pure_bind]
  · simp only [send, useSink_of_active h, Writing.sent, Writing.reply, Sink.write_eq, bind_assoc,
      pure_bind]
  · simp only [send, useSink_of_active h, Writing.sent, Writing.reply, Sink.writeText,
      Sink.write_eq, toList_toUTF8, bind_assoc, pure_bind]
  · simp only [send, useSink_of_active h, Writing.sent, Writing.reply, Sink.writeText,
      Sink.write_eq, toList_toUTF8_toString, bind_assoc, pure_bind]
  · simp only [send, useSink_of_active h, Writing.sent, Writing.reply, Sink.writeBuffer,
      Sink.write_eq, bind_assoc, pure_bind]
  · simp only [send, useSink_of_active h, Writing.sent, Writing.reply, Sink.writeAll_eq,
      Sink.write_eq, bind_assoc, pure_bind]
  · simp only [send, useSink_of_active h, Writing.sent, Writing.reply, Sink.putAll,
      List.foldlM_nil, pure_bind]

end Send

/-! ### Devices held elsewhere -/

/-- A device that keeps what it receives at a place outside of the console. -/
structure Handle (ι : Type) where
  /-- Name of the device. -/
  name : String
  /-- Where it keeps what it receives. -/
  place : ι
  deriving Repr, DecidableEq, Inhabited

/-- What was received at each place. -/
abbrev Received (ι : Type) := ι → List UInt8

variable {ι : Type} [DecidableEq ι]

/-- More bytes received at one place. -/
def Received.add (received : Received ι) (place : ι) (bytes : List UInt8) : Received ι :=
  fun i ↦ if i = place then received i ++ bytes else received i

instance : Sink (StateM (Received ι)) (Handle ι) where
  name := Handle.name
  put h b := do
    modify fun received ↦ received.add h.place [b]
    return h

theorem putAll_handle (h : Handle ι) (bytes : List UInt8) (received : Received ι) :
    (Sink.putAll h bytes).run received = pure (h, received.add h.place bytes) := by
  induction bytes generalizing received with
  | nil =>
    have hnil : received.add h.place [] = received := by
      funext i
      simp [Received.add]
    rw [hnil]
    rfl
  | cons b bs ih =>
    have hcons : (received.add h.place [b]).add h.place bs = received.add h.place (b :: bs) := by
      funext i
      simp only [Received.add]
      split
      · rw [List.append_assoc, List.singleton_append]
      · rfl
    exact (ih (received.add h.place [b])).trans (by rw [hcons])

/-! ### What a run does -/

namespace Operation

variable {δ : Type}

/-- The device in use after an operation. -/
def next (inUse : Option δ) : Operation δ → Option δ
  | set device => some device
  | take => none
  | write _ => inUse

/-- What an operation answers. -/
def reply (inUse : Option δ) : Operation δ → Reply δ
  | set _ | take => .device inUse
  | write w => w.reply inUse

/-- What an operation sends to a place. -/
def sentTo (place : ι) (inUse : Option (Handle ι)) : Operation (Handle ι) → List UInt8
  | set _ | take => []
  | write w => if inUse.map Handle.place = some place then w.sent else []

end Operation

/-- The device in use after operations. -/
def inUse {δ : Type} (first : Option δ) (ops : List (Operation δ)) : Option δ :=
  ops.foldl Operation.next first

/-- What operations send to a place. -/
def sentTo (place : ι) (first : Option (Handle ι)) : List (Operation (Handle ι)) → List UInt8
  | [] => []
  | op :: ops => op.sentTo place first ++ sentTo place (op.next first) ops

/-- What was received after operations. -/
def receivedAfter (received : Received ι) (first : Option (Handle ι))
    (ops : List (Operation (Handle ι))) : Received ι :=
  fun i ↦ received i ++ sentTo i first ops

variable {console : Console (Handle ι)} {received : Received ι}

theorem receivedAfter_cons (first : Option (Handle ι)) (op : Operation (Handle ι))
    (ops : List (Operation (Handle ι))) : receivedAfter received first (op :: ops) =
      receivedAfter (receivedAfter received first [op]) (op.next first) ops := by
  funext i
  simp only [receivedAfter, sentTo, List.append_nil, List.append_assoc]

/-- An operation that sends nothing leaves everything as it was received. -/
theorem receivedAfter_singleton_of_nil {first : Option (Handle ι)} {op : Operation (Handle ι)}
    (h : ∀ i, op.sentTo i first = []) : receivedAfter received first [op] = received := by
  funext i
  simp only [receivedAfter, sentTo, h i, List.append_nil]

/-- What is written is received at the place of the device in use. -/
theorem receivedAfter_write (h : Handle ι) (w : Writing) :
    receivedAfter received (some h) [.write w] = received.add h.place w.sent := by
  funext i
  simp only [receivedAfter, sentTo, Operation.sentTo, Received.add, Option.map_some,
    Option.some.injEq, List.append_nil, eq_comm (a := h.place)]
  split
  · rfl
  · rw [List.append_nil]

/-- **One operation**: its answer, the device in use afterwards, and what each place receives. -/
theorem run_act (op : Operation (Handle ι)) :
    (console.act op).run received = pure ((op.reply console.sink, ⟨op.next console.sink⟩),
      receivedAfter received console.sink [op]) := by
  rcases op with device | - | w
  · rw [receivedAfter_singleton_of_nil fun _ ↦ rfl]
    rfl
  · rw [receivedAfter_singleton_of_nil fun _ ↦ rfl]
    rfl
  · show (console.send w).run received = _
    rcases hsink : console.sink with - | h
    · rw [send_of_inactive hsink, receivedAfter_singleton_of_nil fun _ ↦ rfl, ← hsink]
      rfl
    · rw [send_of_active hsink, StateT.run_bind, putAll_handle, pure_bind, receivedAfter_write]
      rfl

/-- **Every byte goes where it belongs.** In a run of operations, whichever device was in use at
first and whatever was received before, each operation answers, and leaves the devices, as the
operations up to it tell: putting a device in use and taking it out give back the device that was in
use, and nothing else; each place has received what was written while its device was in use, in
order, and nothing else, also after the device was replaced; and a buffer is taken whole. -/
theorem run_watch (console : Console (Handle ι)) (received : Received ι)
    (ops : List (Operation (Handle ι))) :
    ∃ log : List (Moment (Handle ι) (Received ι)),
      (console.watch get ops).run received = pure (log, receivedAfter received console.sink ops) ∧
      log.length = ops.length ∧ ∀ k op, ops[k]? = some op → log[k]? = some (Moment.mk
        (op.reply (inUse console.sink (ops.take k))) (inUse console.sink (ops.take (k + 1)))
        (receivedAfter received console.sink (ops.take (k + 1)))) := by
  induction ops generalizing console received with
  | nil =>
    refine ⟨[], ?_, rfl, nofun⟩
    have hnone : receivedAfter received console.sink [] = received :=
      funext fun i ↦ List.append_nil _
    rw [hnone]
    rfl
  | cons op ops ih =>
    obtain ⟨log, hrun, hlength, hlog⟩ :=
      ih ⟨op.next console.sink⟩ (receivedAfter received console.sink [op])
    refine ⟨⟨op.reply console.sink, op.next console.sink,
      receivedAfter received console.sink [op]⟩ :: log, ?_, ?_, ?_⟩
    · rw [receivedAfter_cons _ op ops, watch, StateT.run_bind, run_act, pure_bind, StateT.run_bind,
        StateT.run_get, pure_bind, StateT.run_bind, hrun, pure_bind]
      rfl
    · rw [List.length_cons, List.length_cons, hlength]
    · rintro (- | k) op' hop
      · obtain rfl := Option.some.inj hop
        rfl
      · rw [List.getElem?_cons_succ] at hop ⊢
        rw [hlog k op' hop, List.take_succ_cons, List.take_succ_cons,
          receivedAfter_cons _ op (ops.take (k + 1))]
        rfl

/-- The first of two devices receives nothing once the second has taken its place. -/
example : sentTo 1 none [.write (.byte 7), .set ⟨"first", 1⟩, .write (.bytes [97, 10]),
    .set ⟨"second", 2⟩, .write (.byte 10), .take, .write (.byte 8)] = [97, 13, 10] := by
  decide

end BringUp.Console
