import BringUp.Proofs.Bus.Memory
import BringUp.Proofs.Machine.Footprint

/-!
# Actions on plain memory

On plain memory an action can be described by what it makes of the bytes of a block: of the byte
`b` at the offset `o` it makes `f o b` (`Firmware.Makes`). Descriptions compose along with the
actions, so what a long sequence of register writes leaves behind is computed byte by byte, without
a machine.

An action that `LeavesAlone` a block may do what it likes elsewhere.
-/

namespace BringUp

open Firmware

/-! ### Bytes of a block -/

/-- What is at an offset, where `b` was, once bytes were stored from another offset on. -/
def put (start : UInt64) : List UInt8 → UInt64 → UInt8 → UInt8
  | [], _, b => b
  | c :: cs, offset, b => put (start + 1) cs offset (if offset = start then c else b)

theorem Memory.byte_store_add (mem : Memory) (base start offset : UInt64) (bs : List UInt8) :
    (mem.store (base + start) bs).byte (base + offset) =
      put start bs offset (mem.byte (base + offset)) := by
  induction bs generalizing mem start with
  | nil => rfl
  | cons c cs ih =>
    rw [store, UInt64.add_assoc, ih, byte_storeByte, put]
    simp only [UInt64.add_right_inj, eq_comm]

/-- Memory is plain, and `f` made its bytes in a block from the earlier ones. -/
structure Machine.Becomes (base : UInt64) (size : Nat) (f : UInt64 → UInt8 → UInt8) (m m' : Machine) :
    Prop where
  /-- Memory is plain. -/
  device_eq : m'.device = .plain
  /-- The bytes of the block. -/
  byte_eq : ∀ offset, offset.toNat < size →
    m'.memory.byte (base + offset) = f offset (m.memory.byte (base + offset))

/-- Every byte stays as it is. -/
def unchanged (_ : UInt64) (b : UInt8) : UInt8 := b

namespace Machine.Becomes

variable {base : UInt64} {size : Nat} {f g : UInt64 → UInt8 → UInt8} {m m₁ m' : Machine}

theorem trans (h : m.Becomes base size f m₁) (h' : m₁.Becomes base size g m') :
    m.Becomes base size (fun offset b ↦ g offset (f offset b)) m' where
  device_eq := h'.device_eq
  byte_eq offset hoffset := by rw [h'.byte_eq offset hoffset, h.byte_eq offset hoffset]

theorem congr (h : m.Becomes base size f m')
    (hfg : ∀ offset b, offset.toNat < size → f offset b = g offset b) :
    m.Becomes base size g m' where
  device_eq := h.device_eq
  byte_eq offset hoffset := by rw [h.byte_eq offset hoffset, hfg offset _ hoffset]

theorem of_memory_eq (hplain : m'.device = .plain) (h : m'.memory = m.memory) :
    m.Becomes base size unchanged m' where
  device_eq := hplain
  byte_eq offset _ := by rw [h, unchanged]

/-- Two machines made in the same way agree. -/
theorem agree (h : m.Becomes base size f m₁) (h' : m.Becomes base size f m') :
    m₁.Becomes base size unchanged m' where
  device_eq := h'.device_eq
  byte_eq offset hoffset := by
    rw [h'.byte_eq offset hoffset, h.byte_eq offset hoffset, unchanged]

end Machine.Becomes

/-! ### What an action makes of a block -/

namespace Firmware

variable {α β : Type} {x : Firmware α} {y : α → Firmware β} {base : UInt64} {size : Nat}
  {f g : UInt64 → UInt8 → UInt8} {m m' : Machine}

/-- On plain memory, if the action ends, `f` made the bytes of the block. -/
def Makes (base : UInt64) (size : Nat) (f : UInt64 → UInt8 → UInt8) (x : Firmware α) : Prop :=
  ∀ m a m', m.device = .plain → x m = .ok a m' → m.Becomes base size f m'

namespace Makes

theorem bind (hx : Makes base size f x) (hy : ∀ a, Makes base size g (y a)) :
    Makes base size (fun offset b ↦ g offset (f offset b)) (x >>= y) := by
  intro m b m' hplain h
  obtain ⟨a, m₁, hfirst, hrest⟩ := bind_eq_ok_iff.1 h
  have hbecomes := hx m a m₁ hplain hfirst
  exact hbecomes.trans (hy a m₁ b m' hbecomes.device_eq hrest)

theorem congr (hx : Makes base size f x)
    (h : ∀ offset b, offset.toNat < size → f offset b = g offset b) : Makes base size g x :=
  fun m a m' hplain hrun ↦ (hx m a m' hplain hrun).congr h

/-- Each branch makes its own of the block. -/
theorem ite {c : Prop} [Decidable c] {x' : Firmware α} (hx : Makes base size f x)
    (hx' : Makes base size g x') :
    Makes base size (fun offset b ↦ if c then f offset b else g offset b)
      (if c then x else x') := by
  split
  · exact hx
  · exact hx'

end Makes

/-! ### Actions that leave a block alone -/

/-- Whatever the action does and however it ends, it accesses no byte of the block, and on plain
memory it changes none. -/
structure LeavesAlone (base : UInt64) (size : Nat) (x : Firmware α) : Prop where
  /-- No access reaches the block. -/
  emits : Emits (Event.Avoids base size) x
  /-- No byte of the block changes. -/
  byte_eq : ∀ m : Machine, m.device = .plain → ∀ offset, offset.toNat < size →
    (x.after m).memory.byte (base + offset) = m.memory.byte (base + offset)

namespace LeavesAlone

theorem becomes (h : LeavesAlone base size x) (hplain : m.device = .plain) :
    m.Becomes base size unchanged (x.after m) := by
  obtain ⟨es, hleads, -⟩ := h.emits m
  exact ⟨hleads.device_eq.trans hplain, h.byte_eq m hplain⟩

theorem makes (h : LeavesAlone base size x) : Makes base size unchanged x := by
  intro m a m' hplain hrun
  rw [← after_of_ok hrun]
  exact h.becomes hplain

theorem becomes_of_error (h : LeavesAlone base size x) (hplain : m.device = .plain) {s : Stop}
    (hrun : x m = .error s m') : m.Becomes base size unchanged m' := by
  rw [← after_of_error hrun]
  exact h.becomes hplain

theorem of_memory_eq (hemits : Emits (Event.Avoids base size) x)
    (h : ∀ m : Machine, m.device = .plain → (x.after m).memory = m.memory) :
    LeavesAlone base size x where
  emits := hemits
  byte_eq m hplain offset _ := by rw [h m hplain]

theorem of_after_eq (h : ∀ m : Machine, x.after m = m) : LeavesAlone base size x :=
  .of_memory_eq (.of_after_eq h) fun m _ ↦ congrArg Machine.memory (h m)

theorem pure (a : α) : LeavesAlone base size (pure a : Firmware α) :=
  .of_after_eq fun _ ↦ rfl

theorem bind (hx : LeavesAlone base size x) (hy : ∀ a, LeavesAlone base size (y a)) :
    LeavesAlone base size (x >>= y) where
  emits := .bind hx.emits fun a ↦ (hy a).emits
  byte_eq m hplain offset hoffset := by
    rcases hrun : x m with ⟨a, m₁⟩ | ⟨s, m₁⟩
    · -- the second action starts from plain memory with the same bytes
      have hfirst := hx.makes m a m₁ hplain hrun
      rw [after, bind_of_ok hrun]
      exact ((hy a).byte_eq m₁ hfirst.device_eq offset hoffset).trans
        (hfirst.byte_eq offset hoffset)
    · rw [after, bind_of_error hrun]
      exact (hx.becomes_of_error hplain hrun).byte_eq offset hoffset

theorem throw (s : Stop) : LeavesAlone base size (throw s : Firmware α) :=
  .of_after_eq fun _ ↦ rfl

theorem fail (cause : Failure) : LeavesAlone base size (fail cause : Firmware α) :=
  .throw _

theorem liftExcept (r : Except Stop α) : LeavesAlone base size (liftExcept r : Firmware α) := by
  cases r with
  | ok a => exact .pure a
  | error s => exact .throw s

theorem ite {c : Prop} [Decidable c] {x' : Firmware α} (hx : LeavesAlone base size x)
    (hx' : LeavesAlone base size x') : LeavesAlone base size (if c then x else x') := by
  split
  · exact hx
  · exact hx'

theorem attempt (h : LeavesAlone base size x) : LeavesAlone base size x.attempt where
  emits := h.emits.attempt
  byte_eq m hplain offset hoffset := by
    rw [after_attempt]
    exact h.byte_eq m hplain offset hoffset

theorem log (level : Level) (text : String) : LeavesAlone base size (log level text) :=
  .of_memory_eq (.log nofun) fun _ _ ↦ rfl

theorem now : LeavesAlone base size now := by
  refine .of_memory_eq (.now fun _ ↦ nofun) fun m _ ↦ ?_
  rcases hrun : Firmware.now m with ⟨t, m'⟩ | ⟨s, m'⟩
  · obtain ⟨-, counter, -, rfl⟩ := now_eq_ok_iff.1 hrun
    rw [after_of_ok hrun]
  · rw [after_of_error hrun]
    unfold Firmware.now at hrun
    split at hrun
    · split at hrun
      · cases hrun
      · cases hrun
        rfl
    · cases hrun
      rfl

theorem rounds : LeavesAlone base size rounds :=
  .of_after_eq fun _ ↦ rfl

theorem spinFor {ready : Firmware Bool} (hready : LeavesAlone base size ready)
    (limit start : UInt64) (what : String) (n : Nat) :
    LeavesAlone base size (spinFor limit start what ready n) := by
  induction n with
  | zero => exact .throw _
  | succ n ih =>
    exact .bind hready fun _ ↦ .ite (.pure _) (.bind .now fun _ ↦ .ite (.fail _) ih)

theorem spin {ready : Firmware Bool} (hready : LeavesAlone base size ready) (n : Nat) :
    LeavesAlone base size (spin ready n) := by
  induction n with
  | zero => exact .throw _
  | succ n ih => exact .bind hready fun _ ↦ .ite (.pure _) ih

theorem waitUntil {ready : Firmware Bool} (hready : LeavesAlone base size ready)
    (deadline : Deadline) (what : String) :
    LeavesAlone base size (waitUntil deadline what ready) := by
  cases deadline with
  | never => exact .bind .rounds fun n ↦ .spin hready n
  | after limit => exact .bind .now fun _ ↦ .bind .rounds fun n ↦ .spinFor hready _ _ _ n

theorem watchFor (micros start : UInt64) (n : Nat) :
    LeavesAlone base size (watchFor micros start n) := by
  induction n with
  | zero => exact .throw _
  | succ n ih => exact .bind .now fun _ ↦ .ite ih (.pure _)

theorem delay (micros : UInt64) : LeavesAlone base size (delay micros) := by
  have hrecord : LeavesAlone base size
      (modify fun m ↦ m.record (.delay micros) : Firmware PUnit) :=
    .of_memory_eq (fun m ↦ ⟨_, .record m rfl, List.forall_mem_singleton.2 nofun⟩) fun _ _ ↦ rfl
  have hwind : LeavesAlone base size
      (modify fun m ↦ { m with clock := m.clock.wind micros } : Firmware PUnit) :=
    .of_memory_eq (fun m ↦ ⟨[], ⟨(List.append_nil _).symm, rfl, rfl, rfl, rfl, rfl⟩,
      List.forall_mem_nil _⟩) fun _ _ ↦ rfl
  refine .bind hrecord fun _ ↦ .bind (.of_after_eq fun _ ↦ rfl) fun m₀ ↦ ?_
  cases m₀.clock.passing with
  | winds => exact hwind
  | watched => exact .bind .now fun _ ↦ .bind .rounds fun n ↦ .watchFor _ _ n

end LeavesAlone

end Firmware

/-! ### Register blocks -/

namespace Block

variable {b : Block} {offset : UInt64} {value v : UInt32} {size : Nat} {m m' : Machine}

/-- On plain memory a register reads as what is stored in its place, and nothing changes there. -/
theorem read_plain (hplain : m.device = .plain)
    (h : (b.read offset : Firmware UInt32) m = .ok v m') :
    v = m.memory.load (b.base + offset) (b.layout.width offset) ∧ m'.memory = m.memory ∧
      m'.device = .plain := by
  obtain ⟨-, -, memory, hmemory, rfl, rfl⟩ := busRead_eq_ok_iff.1 (busRead_of_read h)
  rw [hplain] at hmemory
  cases hmemory
  exact ⟨rfl, rfl, hplain⟩

theorem makes_read : Makes b.base size unchanged (b.read offset : Firmware UInt32) := by
  intro m v m' hplain h
  obtain ⟨-, hmemory, hplain'⟩ := read_plain hplain h
  exact .of_memory_eq hplain' hmemory

/-- What follows a reading makes of the block what it makes of it for the value in memory. -/
theorem becomes_of_read_bind {β : Type} {y : UInt32 → Firmware β}
    {f : UInt32 → UInt64 → UInt8 → UInt8} {a : β}
    (h : ((b.read offset : Firmware UInt32) >>= y) m = .ok a m') (hplain : m.device = .plain)
    (hy : ∀ v, Makes b.base size (f v) (y v)) :
    m.Becomes b.base size (f (m.memory.load (b.base + offset) (b.layout.width offset))) m' := by
  obtain ⟨v, m₁, hread, hrest⟩ := bind_eq_ok_iff.1 h
  obtain ⟨rfl, hmemory, hplain₁⟩ := read_plain hplain hread
  exact (Machine.Becomes.of_memory_eq hplain₁ hmemory).trans (hy _ m₁ a m' hplain₁ hrest)

/-- A write stores the bytes of its value. -/
theorem write_plain (hplain : m.device = .plain)
    (h : (b.write offset value : Firmware Unit) m = .ok () m') :
    m'.memory = m.memory.store (b.base + offset)
        (bytesOf (b.layout.width offset).bytes ((b.layout.width offset).truncate value)) ∧
      m'.device = .plain := by
  obtain ⟨hfits, memory, hmemory, rfl⟩ := busWrite_eq_ok_iff.1 (busWrite_of_write h)
  rw [hplain] at hmemory
  exact ⟨(Option.some.inj ((if_pos hfits).symm.trans hmemory)).symm, hplain⟩

/-- An update reads the register, and stores the bytes of what it makes of the value. -/
theorem update_plain {clear set : UInt32} (hplain : m.device = .plain)
    (h : (b.update offset clear set : Firmware Unit) m = .ok () m') :
    let w := b.layout.width offset
    let old := m.memory.load (b.base + offset) w
    let new := w.truncate ((old &&& ~~~clear) ||| set)
    m'.memory = m.memory.store (b.base + offset) (bytesOf w.bytes new) ∧
      m.Leads [.busRead w (b.base + offset) old, .busWrite w (b.base + offset) new] m' := by
  obtain ⟨v, m₁, hread, hwrite⟩ := bind_eq_ok_iff.1 h
  obtain ⟨rfl, hmemory, hplain₁⟩ := read_plain hplain hread
  refine ⟨?_, (read_eq_ok hread).1.trans (write_eq_ok hwrite)⟩
  rw [(write_plain hplain₁ hwrite).1, hmemory]

theorem makes_write {bs : List UInt8}
    (hbytes : bytesOf (b.layout.width offset).bytes ((b.layout.width offset).truncate value) = bs) :
    Makes b.base size (put offset bs) (b.write offset value : Firmware Unit) := by
  intro m _ m' hplain h
  obtain ⟨hmemory, hplain'⟩ := write_plain hplain h
  refine ⟨hplain', fun place _ ↦ ?_⟩
  rw [hmemory, hbytes, Memory.byte_store_add]

/-- An access that does not reach a block leaves it alone. -/
theorem leavesAlone_read {base : UInt64}
    (h : ¬ (Access.read (b.layout.width offset) (b.base + offset)).Meets base size) :
    LeavesAlone base size (b.read offset : Firmware UInt32) := by
  refine .of_memory_eq (emits_read fun v ↦ ?_) fun m hplain ↦ ?_
  · rintro _ ⟨⟩
    exact h
  · rcases hrun : (b.read offset : Firmware UInt32) m with ⟨v, m'⟩ | ⟨s, m'⟩
    · rw [after_of_ok hrun]
      exact (read_plain hplain hrun).2.1
    · rw [after_of_error hrun, (read_eq_error hrun).1]

theorem leavesAlone_write {base : UInt64} (value : UInt32)
    (h : ¬ (Access.write (b.layout.width offset) (b.base + offset)).Meets base size) :
    LeavesAlone base size (b.write offset value : Firmware Unit) where
  emits := by
    refine emits_write ?_
    rintro _ ⟨⟩
    exact h
  byte_eq m hplain place hplace := by
    rcases hrun : (b.write offset value : Firmware Unit) m with ⟨_, m'⟩ | ⟨s, m'⟩
    · rw [after_of_ok hrun, (write_plain hplain hrun).1, Memory.byte_store _ _ _ _ ?_,
        List.getElem?_eq_none ?_, Option.getD_none]
      · -- the byte would be among those that the access reaches
        rw [length_bytesOf]
        refine Nat.le_of_not_lt fun hlt ↦ h ⟨_, hlt, ?_⟩
        have hplace' : b.base + offset +
            UInt64.ofNat (base + place - (b.base + offset)).toNat - base = place := by
          rw [UInt64.ofNat_toNat]
          grind
        rwa [Access.address, hplace']
      · rw [length_bytesOf]
        exact Nat.le_trans (b.layout.width offset).bytes_le_four (by decide)
    · rw [after_of_error hrun, (write_eq_error hrun).1]

section Within

variable {base : UInt64} {reads writes : List UInt64}
  (hapart : ∀ a ∈ b.footprint reads writes, ¬ a.Meets base size)
include hapart

theorem leavesAlone_read_within (h : offset ∈ reads) :
    LeavesAlone base size (b.read offset : Firmware UInt32) :=
  leavesAlone_read (hapart _ (List.mem_append_left _ (List.mem_map_of_mem h)))

theorem leavesAlone_write_within (h : offset ∈ writes) (value : UInt32) :
    LeavesAlone base size (b.write offset value : Firmware Unit) :=
  leavesAlone_write value (hapart _ (List.mem_append_right _ (List.mem_map_of_mem h)))

end Within

end Block

end BringUp
