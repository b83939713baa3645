import BringUp.Proofs.Bus.Ram
import BringUp.Proofs.Machine.Progress

/-!
# Register blocks over the bus and over plain memory

The operations of a register block are one definition for everything that loads and stores. Here
one block lies over a block of plain memory and over the bus of a machine whose device does
nothing, and the two are kept in step: an operation gives the same answer on both and leaves the
machine a mirror of the memory again (`Block.Agree`). Operations are put together by `Agree.bind`,
so runs of any length follow from a load and a store.

The writes that the machine logs are told in advance, from the plain memory alone
(`Block.performed`): a read-modify-write is the only operation whose value depends on it. Memory
and machine are what these writes make of their first states.
-/

namespace BringUp

/-- A write as the log of the bus has it: width, address, and the value that was carried. -/
abbrev LoggedWrite := Width × UInt64 × UInt32

/-- Plays writes into a block of memory. -/
def Ram.replay (ram : Ram) (ws : List LoggedWrite) : Ram :=
  ws.foldl (fun ram w ↦ ram.store w.2.1 w.1 w.2.2) ram

/-- Plays writes into a memory. -/
def Memory.replay (mem : Memory) (ws : List LoggedWrite) : Memory :=
  ws.foldl (fun mem w ↦ mem.store w.2.1 (bytesOf w.1.bytes w.2.2)) mem

namespace Ram

variable (ram : Ram) (ws ws' : List LoggedWrite)

theorem replay_append : ram.replay (ws ++ ws') = (ram.replay ws).replay ws' :=
  List.foldl_append

@[simp] theorem origin_replay : (ram.replay ws).origin = ram.origin := by
  induction ws generalizing ram with
  | nil => rfl
  | cons w ws ih => exact (ih _).trans (ram.origin_store _ _ _)

@[simp] theorem size_replay : (ram.replay ws).bytes.size = ram.bytes.size := by
  induction ws generalizing ram with
  | nil => rfl
  | cons w ws ih => exact (ih _).trans (ram.size_store _ _ _)

end Ram

theorem Memory.replay_append (mem : Memory) (ws ws' : List LoggedWrite) :
    mem.replay (ws ++ ws') = (mem.replay ws).replay ws' :=
  List.foldl_append

namespace Block

/-! ### Operations -/

/-- What a program can ask of a register block. -/
inductive Operation
  /-- Read a register. -/
  | read (offset : UInt64)
  /-- Write a register. -/
  | write (offset : UInt64) (value : UInt32)
  /-- Clear some bits and set others. -/
  | update (offset : UInt64) (clear set : UInt32)
  /-- Write bits and their guard. -/
  | writeWithGuard (offset : UInt64) (bits guard : UInt32)
  /-- Write twice. -/
  | writeInTurn (offset : UInt64) (first second : UInt32)
  deriving Repr, DecidableEq, Inhabited

/-- Offset of the register that the operation is about. -/
def Operation.offset : Operation → UInt64
  | read offset | write offset _ | update offset _ _ | writeWithGuard offset _ _
  | writeInTurn offset _ _ => offset

section Run

variable {m : Type → Type} [Monad m] [MonadExceptOf Stop m] [Bus m]

/-- Carries out an operation; only a read has something to answer. -/
def perform (b : Block) : Operation → m (Option UInt32)
  | .read offset => do return some (← b.read offset)
  | .write offset value => do
    b.write offset value
    return none
  | .update offset clear set => do
    b.update offset clear set
    return none
  | .writeWithGuard offset bits guard => do
    b.writeWithGuard offset bits guard
    return none
  | .writeInTurn offset first second => do
    b.writeInTurn offset first second
    return none

/-- Carries out operations in turn and looks at all bytes after each of them. -/
def watch (look : m (UInt64 → UInt8)) (b : Block) :
    List Operation → m (List (Option UInt32 × (UInt64 → UInt8)))
  | [] => return []
  | op :: ops => do
    let answer ← b.perform op
    let bytes ← look
    let rest ← b.watch look ops
    return (answer, bytes) :: rest

end Run

/-- A write of a register as it is logged: at base and offset, with the width of the layout, the
value cut to it. -/
def carried (b : Block) (offset : UInt64) (value : UInt32) : LoggedWrite :=
  (b.layout.width offset, b.base + offset, (b.layout.width offset).truncate value)

/-- The writes that an operation makes if the register holds `seen`. -/
def writes (b : Block) (seen : UInt32) : Operation → List LoggedWrite
  | .read _ => []
  | .write offset value => [b.carried offset value]
  | .update offset clear set => [b.carried offset ((seen &&& ~~~clear) ||| set)]
  | .writeWithGuard offset bits guard => [b.carried offset (bits ||| guard)]
  | .writeInTurn offset first second => [b.carried offset first, b.carried offset second]

/-- What a register holds. -/
def held (b : Block) (ram : Ram) (offset : UInt64) : UInt32 :=
  ram.load (b.base + offset) (b.layout.width offset)

/-- The writes that operations on plain memory make. -/
def performed (b : Block) (ram : Ram) : List Operation → List LoggedWrite
  | [] => []
  | op :: ops =>
    let ws := b.writes (b.held ram op.offset) op
    ws ++ b.performed (ram.replay ws) ops

end Block

/-! ### Keeping in step -/

/-- The block of plain memory as it is seen. -/
def Ram.look : RamAction (UInt64 → UInt8) := do
  return (← get).byte

/-- The memory of the machine as it is seen. -/
def Machine.look : Firmware (UInt64 → UInt8) := do
  return (← get).memory.byte

/-- A machine that nothing has touched, with a watchdog that allows for a number of reads. -/
def Machine.untouched (limit : Nat) : Machine :=
  { watchdog := { limit } }

/-- The machine has plain memory that mirrors a block, and its watchdog allows for a number of
reads. -/
structure Machine.Mirrors (m : Machine) (ram : Ram) (reads : Nat) : Prop where
  /-- Memory is plain. -/
  device_eq : m.device = .plain
  /-- It holds the same bytes. -/
  memory : m.memory.Mirrors ram
  /-- The reads are allowed. -/
  allowed : m.watchdog.busReads + reads ≤ m.watchdog.limit

/-- Between two machines these writes were logged, and nothing else changed memory. -/
structure Machine.Wrote (m : Machine) (ws : List LoggedWrite) (m' : Machine) : Prop where
  /-- They are logged. -/
  trace_eq : ∃ es, m'.trace.toList = m.trace.toList ++ es ∧ es.filterMap Event.busWrite? = ws
  /-- The log has not been cleared. -/
  logStart_eq : m'.logStart = m.logStart
  /-- They made the memory. -/
  memory_eq : m'.memory = m.memory.replay ws

namespace Machine.Wrote

variable {m m₁ m' : Machine} {ws ws' : List LoggedWrite}

theorem refl (m : Machine) : m.Wrote [] m :=
  ⟨⟨[], (List.append_nil _).symm, rfl⟩, rfl, rfl⟩

theorem trans (h : m.Wrote ws m₁) (h' : m₁.Wrote ws' m') : m.Wrote (ws ++ ws') m' := by
  obtain ⟨es, htrace, hes⟩ := h.trace_eq
  obtain ⟨es', htrace', hes'⟩ := h'.trace_eq
  refine ⟨⟨es ++ es', ?_, ?_⟩, h'.logStart_eq.trans h.logStart_eq, ?_⟩
  · rw [htrace', htrace, List.append_assoc]
  · rw [List.filterMap_append, hes, hes']
  · rw [h'.memory_eq, h.memory_eq, Memory.replay_append]

end Machine.Wrote

namespace Block

open Firmware

variable {α β : Type} {x : RamAction α} {y : Firmware α} {f : α → RamAction β}
  {g : α → Firmware β} {ram : Ram} {n k : Nat} {a : α} {ws ws' : List LoggedWrite} {b : Block}
  {offset : UInt64}

/-- From a block of memory and from every machine that mirrors it, both actions give the same
answer and make the same writes, and the machine mirrors the block again. The machine needs no more
than a number of reads for it. -/
structure Agree (x : RamAction α) (y : Firmware α) (ram : Ram) (reads : Nat) (a : α)
    (ws : List LoggedWrite) : Prop where
  /-- On plain memory. -/
  plain : x ram = .ok a (ram.replay ws)
  /-- On the machine. -/
  machine : ∀ m spare, m.Mirrors ram (reads + spare) →
    ∃ m', y m = .ok a m' ∧ m'.Mirrors (ram.replay ws) spare ∧ m.Wrote ws m'

namespace Agree

theorem pure (a : α) (ram : Ram) : Agree (pure a) (pure a) ram 0 a [] where
  plain := rfl
  machine m spare h := ⟨m, rfl, by rwa [Nat.zero_add] at h, .refl m⟩

theorem bind (hx : Agree x y ram n a ws) {c : β} (hf : Agree (f a) (g a) (ram.replay ws) k c ws') :
    Agree (x >>= f) (y >>= g) ram (n + k) c (ws ++ ws') where
  plain := by
    show EStateM.bind x f ram = _
    rw [EStateM.bind, hx.plain, Ram.replay_append]
    exact hf.plain
  machine m spare h := by
    rw [Nat.add_assoc] at h
    obtain ⟨m₁, hrun, hmirrors, hwrote⟩ := hx.machine m (k + spare) h
    obtain ⟨m', hrun', hmirrors', hwrote'⟩ := hf.machine m₁ spare hmirrors
    rw [Ram.replay_append]
    exact ⟨m', (bind_of_ok hrun).trans hrun', hmirrors', hwrote.trans hwrote'⟩

/-- What comes after an action that writes nothing. -/
theorem bind_of_nil (hx : Agree x y ram n a []) {c : β} (hf : Agree (f a) (g a) ram k c ws) :
    Agree (x >>= f) (y >>= g) ram (n + k) c ws :=
  hx.bind hf

/-- Allowing for more reads than needed does no harm. -/
theorem mono (hx : Agree x y ram n a ws) (h : n ≤ k) : Agree x y ram k a ws where
  plain := hx.plain
  machine m spare hm := by
    obtain ⟨m', hrun, hmirrors, hwrote⟩ := hx.machine m (k - n + spare) (by
      rwa [← Nat.add_assoc, Nat.add_sub_cancel' h])
    refine ⟨m', hrun, ⟨hmirrors.device_eq, hmirrors.memory, ?_⟩, hwrote⟩
    exact Nat.le_trans (Nat.add_le_add_left (Nat.le_add_left _ _) _) hmirrors.allowed

/-- An action followed by a computation on its answer. -/
theorem bind_pure (hx : Agree x y ram n a ws) (f : α → β) :
    Agree (do let a ← x; Pure.pure (f a)) (do let a ← y; Pure.pure (f a)) ram n (f a) ws := by
  have h := hx.bind (f := fun a ↦ Pure.pure (f a)) (g := fun a ↦ Pure.pure (f a)) (Agree.pure _ _)
  rwa [List.append_nil] at h

end Agree

theorem agree_look : Agree Ram.look Machine.look ram 0 ram.byte [] where
  plain := rfl
  machine m spare h := by
    rw [Nat.zero_add] at h
    have hbytes : m.memory.byte = ram.byte := funext h.memory
    refine ⟨m, ?_, h, .refl m⟩
    rw [← hbytes]
    rfl

/-! ### Registers inside the memory -/

/-- The block of memory ends inside the address space, and the register lies in it. -/
structure Inside (b : Block) (ram : Ram) (offset : UInt64) : Prop where
  /-- The memory ends inside the address space. -/
  space : ram.Fits
  /-- The register starts in the memory. -/
  start : ram.origin.toNat ≤ b.base.toNat + offset.toNat
  /-- And it ends there. -/
  fits : b.base.toNat + offset.toNat + (b.layout.width offset).bytes ≤
    ram.origin.toNat + ram.bytes.size

instance (b : Block) (ram : Ram) (offset : UInt64) : Decidable (b.Inside ram offset) :=
  decidable_of_iff (ram.Fits ∧ ram.origin.toNat ≤ b.base.toNat + offset.toNat ∧
      b.base.toNat + offset.toNat + (b.layout.width offset).bytes ≤
        ram.origin.toNat + ram.bytes.size)
    ⟨fun h ↦ ⟨h.1, h.2.1, h.2.2⟩, fun h ↦ ⟨h.space, h.start, h.fits⟩⟩

namespace Inside

variable (h : b.Inside ram offset)
include h

theorem block_fits : b.Fits offset :=
  Nat.le_trans h.fits h.space

theorem holds : ram.Holds (b.base + offset) (b.layout.width offset).bytes := by
  have hadd : (b.base + offset).toNat = b.base.toNat + offset.toNat := by
    rw [UInt64.toNat_add]
    exact Nat.mod_eq_of_lt h.block_fits.add_lt
  rw [Ram.Holds, hadd]
  exact ⟨h.start, h.fits⟩

theorem replay (ws : List LoggedWrite) : b.Inside (ram.replay ws) offset where
  space := by
    rw [Ram.Fits, Ram.origin_replay, Ram.size_replay]
    exact h.space
  start := by
    rw [Ram.origin_replay]
    exact h.start
  fits := by
    rw [Ram.origin_replay, Ram.size_replay]
    exact h.fits

theorem agree_read :
    Agree (b.read offset) (b.read offset) ram 1 (b.held ram offset) [] where
  plain := by
    rw [read, address, exactAdd_of_lt h.block_fits.add_lt]
    rfl
  machine m spare hm := by
    have hallowed := hm.allowed
    have hreact : m.device.onRead m.trace (b.base + offset) (m.readsOf (b.base + offset))
        m.memory = some m.memory := by
      rw [hm.device_eq]
      rfl
    have hvalue : b.held ram offset = m.memory.load (b.base + offset) (b.layout.width offset) :=
      (hm.memory.load_eq h.space h.holds).symm
    rw [read, address, exactAdd_of_lt h.block_fits.add_lt]
    refine ⟨_, busRead_eq_ok_iff.2 ⟨by omega, h.block_fits.fits, _, hreact, hvalue, rfl⟩, ?_, ?_⟩
    · refine ⟨hm.device_eq, hm.memory, ?_⟩
      show m.watchdog.busReads + 1 + spare ≤ m.watchdog.limit
      omega
    · exact ⟨⟨_, Array.toList_push, rfl⟩, rfl, rfl⟩

theorem agree_write (value : UInt32) :
    Agree (b.write offset value) (b.write offset value) ram 0 () [b.carried offset value] where
  plain := by
    have hstore : ram.replay [b.carried offset value] =
        ram.store (b.base + offset) (b.layout.width offset) value :=
      ram.store_truncate _ _ _
    rw [write, address, exactAdd_of_lt h.block_fits.add_lt, hstore]
    rfl
  machine m spare hm := by
    have hreact : m.device.onWrite m.trace (b.layout.width offset) (b.base + offset)
        ((b.layout.width offset).truncate value) m.memory =
          some (m.memory.replay [b.carried offset value]) := by
      rw [hm.device_eq]
      exact if_pos h.block_fits.fits
    rw [write, address, exactAdd_of_lt h.block_fits.add_lt]
    refine ⟨_, busWrite_eq_ok_iff.2 ⟨h.block_fits.fits, _, hreact, rfl⟩, ?_, ?_⟩
    · refine ⟨hm.device_eq, hm.memory.store h.space h.holds _, ?_⟩
      rw [← Nat.zero_add spare]
      exact hm.allowed
    · exact ⟨⟨_, Array.toList_push, rfl⟩, rfl, rfl⟩

theorem agree_update (clear set : UInt32) :
    Agree (b.update offset clear set) (b.update offset clear set) ram 1 ()
      [b.carried offset ((b.held ram offset &&& ~~~clear) ||| set)] :=
  .bind_of_nil (k := 0) h.agree_read (h.agree_write _)

theorem agree_writeInTurn (first second : UInt32) :
    Agree (b.writeInTurn offset first second) (b.writeInTurn offset first second) ram 0 ()
      [b.carried offset first, b.carried offset second] :=
  .bind (n := 0) (k := 0) (h.agree_write first) ((h.replay _).agree_write second)

end Inside

/-! ### Runs -/

/-- **Every operation agrees on both**, with the answer and the writes that the plain memory
tells. -/
theorem agree_perform (op : Operation) (h : b.Inside ram op.offset) :
    ∃ answer, Agree (b.perform op) (b.perform op) ram 1 answer
      (b.writes (b.held ram op.offset) op) := by
  rcases op with offset | ⟨offset, value⟩ | ⟨offset, clear, set⟩ | ⟨offset, bits, guard⟩ |
    ⟨offset, first, second⟩
  · exact ⟨_, h.agree_read.bind_pure some⟩
  · exact ⟨_, ((h.agree_write value).bind_pure fun _ ↦ none).mono (Nat.zero_le _)⟩
  · exact ⟨_, (h.agree_update clear set).bind_pure fun _ ↦ none⟩
  · exact ⟨_, ((h.agree_write (bits ||| guard)).bind_pure fun _ ↦ none).mono (Nat.zero_le _)⟩
  · exact ⟨_, ((h.agree_writeInTurn first second).bind_pure fun _ ↦ none).mono (Nat.zero_le _)⟩

/-- **Runs of operations agree**, and so does what is seen after each operation. -/
theorem agree_watch (ops : List Operation) (h : ∀ op ∈ ops, b.Inside ram op.offset) :
    ∃ log, Agree (b.watch Ram.look ops) (b.watch Machine.look ops) ram ops.length log
      (b.performed ram ops) := by
  induction ops generalizing ram with
  | nil => exact ⟨[], Agree.pure _ _⟩
  | cons op ops ih =>
    obtain ⟨hop, hops⟩ := List.forall_mem_cons.1 h
    obtain ⟨answer, hfirst⟩ := b.agree_perform op hop
    obtain ⟨log, hrest⟩ := ih fun op hmem ↦ (hops op hmem).replay _
    let ws := b.writes (b.held ram op.offset) op
    refine ⟨(answer, (ram.replay ws).byte) :: log, ?_⟩
    have hlook : Agree
        (Ram.look >>= fun bytes ↦
          b.watch Ram.look ops >>= fun rest ↦ pure ((answer, bytes) :: rest))
        (Machine.look >>= fun bytes ↦
          b.watch Machine.look ops >>= fun rest ↦ pure ((answer, bytes) :: rest))
        (ram.replay ws) (0 + ops.length) ((answer, (ram.replay ws).byte) :: log)
        (b.performed (ram.replay ws) ops) :=
      agree_look.bind_of_nil (hrest.bind_pure _)
    rw [List.length_cons, Nat.add_comm, ← Nat.zero_add ops.length]
    exact hfirst.bind hlook

/-- **The simulated bus is plain memory.** Over a block of zeros and over the bus of a machine that
nothing has touched, operations on registers that lie in the block all end, with the same answers,
and after each of them the same bytes are seen at every address. The log of the machine holds the
writes that were performed, and played into the first states it makes the last ones. Registers may
overlap in any way; the watchdog, which no bus has, allows for one read in each operation. -/
theorem watched_alike (b : Block) (origin : UInt64) (size limit : Nat) (ops : List Operation)
    (hinside : ∀ op ∈ ops, b.Inside (.zeroed origin size) op.offset) (hlimit : ops.length ≤ limit) :
    ∃ log ram m, b.watch Ram.look ops (.zeroed origin size) = .ok log ram ∧
      b.watch Machine.look ops (.untouched limit) = .ok log m ∧
      m.busWrites = b.performed (.zeroed origin size) ops ∧
      (Ram.zeroed origin size).replay m.busWrites = ram ∧
      Memory.empty.replay m.busWrites = m.memory := by
  obtain ⟨log, hagree⟩ := b.agree_watch ops hinside
  have hmirrors : (Machine.untouched limit).Mirrors (.zeroed origin size) (ops.length + 0) :=
    ⟨rfl, .empty_zeroed origin size, by show 0 + (ops.length + 0) ≤ limit; omega⟩
  obtain ⟨m, hrun, -, hwrote⟩ := hagree.machine _ 0 hmirrors
  obtain ⟨es, htrace, hes⟩ := hwrote.trace_eq
  have hlog : m.busWrites = b.performed (.zeroed origin size) ops := by
    rw [Machine.busWrites, hwrote.logStart_eq, htrace, ← hes]
    rfl
  refine ⟨log, _, m, hagree.plain, hrun, hlog, ?_, ?_⟩
  · rw [hlog]
  · rw [hlog]
    exact hwrote.memory_eq.symm

/-- Registers of four bytes, but for one of a single byte. -/
def crowded : Block :=
  ⟨0x1000, ⟨[1], .word⟩⟩

/-- A word, the byte inside it, and a word that starts in the middle of the first one. -/
def crowdedOps : List Operation :=
  [.write 0 0x11223344, .write 1 0xAABB, .update 2 0xFF 0x80000001, .writeInTurn 1 0 0x55, .read 0]

theorem watched_alike_overlapping :
    ∃ log ram m, crowded.watch Ram.look crowdedOps (.zeroed 0x1000 6) = .ok log ram ∧
      crowded.watch Machine.look crowdedOps (.untouched 5) = .ok log m ∧
      m.busWrites = [(.word, 0x1000, 0x11223344), (.byte, 0x1001, 0xBB),
        (.word, 0x1002, 0x80001101), (.byte, 0x1001, 0), (.byte, 0x1001, 0x55)] ∧
      ram.bytes = #[0x44, 0x55, 0x01, 0x11, 0x00, 0x80] := by
  obtain ⟨log, ram, m, hplain, hbus, hlog, hram, -⟩ :=
    watched_alike crowded 0x1000 6 5 crowdedOps (by decide) (by decide)
  have hperformed : crowded.performed (.zeroed 0x1000 6) crowdedOps =
      [(.word, 0x1000, 0x11223344), (.byte, 0x1001, 0xBB), (.word, 0x1002, 0x80001101),
        (.byte, 0x1001, 0), (.byte, 0x1001, 0x55)] := by
    decide +kernel
  rw [hlog, hperformed] at hram
  refine ⟨log, ram, m, hplain, hbus, hlog.trans hperformed, ?_⟩
  rw [← hram]
  decide +kernel

end Block

end BringUp
