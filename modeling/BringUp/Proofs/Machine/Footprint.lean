import BringUp.Proofs.Bus.Memory
import BringUp.Proofs.Machine.Access

/-!
# Footprints

Which bus accesses an action can make. A footprint is a list of accesses without their values, and
an action stays within it if all that it emits is such accesses, readings of the clock, delays and
log records (`Event.Within`). Register accesses and fences are in no footprint.

Two blocks are apart if no access to one reaches a byte of the other; `Access.Meets` counts the
bytes, and addresses wrap. `written` is what was written to one address, in order.
-/

namespace BringUp

open Firmware

/-! ### Accesses -/

/-- A bus access, but for the value that it carries. -/
inductive Access
  /-- A bus read. -/
  | read (width : Width) (address : UInt64)
  /-- A bus write. -/
  | write (width : Width) (address : UInt64)
  deriving Repr, DecidableEq, Inhabited

namespace Access

/-- Width of the access. -/
def width : Access → Width
  | read w _ | write w _ => w

/-- Address of the first byte. -/
def address : Access → UInt64
  | read _ a | write _ a => a

/-- The access reaches one of the `size` bytes from `base` on. -/
def Meets (a : Access) (base : UInt64) (size : Nat) : Prop :=
  ∃ i < a.width.bytes, (a.address + UInt64.ofNat i - base).toNat < size

instance (a : Access) (base : UInt64) (size : Nat) : Decidable (a.Meets base size) :=
  inferInstanceAs (Decidable (∃ i < a.width.bytes, (a.address + UInt64.ofNat i - base).toNat < size))

/-- An access reaches the byte at its address. -/
theorem meets_of_address_eq {a : Access} {base offset : UInt64} {size : Nat}
    (ha : a.address = base + offset) (h : offset.toNat < size) : a.Meets base size := by
  have hfirst : a.address + UInt64.ofNat 0 - base = offset := by
    rw [ha, show UInt64.ofNat 0 = 0 from rfl, UInt64.add_zero, UInt64.add_comm base,
      UInt64.add_sub_cancel]
  exact ⟨0, a.width.bytes_pos, by rwa [hfirst]⟩

/-- Bytes inside the address space that end before others begin are apart from them. -/
theorem not_meets_of_le {a : Access} {base : UInt64} {size : Nat}
    (hfits : a.address.toNat + a.width.bytes ≤ UInt64.size)
    (hend : base.toNat + size ≤ UInt64.size)
    (h : a.address.toNat + a.width.bytes ≤ base.toNat ∨ base.toNat + size ≤ a.address.toNat) :
    ¬ a.Meets base size := by
  rintro ⟨i, hi, hlt⟩
  rw [toNat_sub_lt_iff hend, toNat_add_ofNat hfits hi] at hlt
  omega

/-- An access to a block at `base`, from its place in the block. -/
def shift (base : UInt64) : Access → Access
  | read w offset => read w (base + offset)
  | write w offset => write w (base + offset)

@[simp] theorem address_shift (base : UInt64) (a : Access) :
    (a.shift base).address = base + a.address := by
  cases a <;> rfl

@[simp] theorem width_shift (base : UInt64) (a : Access) : (a.shift base).width = a.width := by
  cases a <;> rfl

/-- Whether an access reaches bytes of its block does not depend on where the block lies. -/
theorem meets_shift_iff {a : Access} {base offset : UInt64} {size : Nat} :
    (a.shift base).Meets (base + offset) size ↔ a.Meets offset size := by
  have hplace : ∀ x i : UInt64, base + x + i - (base + offset) = x + i - offset := by grind
  simp only [Meets, address_shift, width_shift, hplace]

end Access

section Stores

variable (mem : Memory) {w : Width} (w' : Width) (value : UInt32)

/-- What is stored elsewhere leaves a value alone. -/
theorem Memory.load_store_of_not_meets {address start : UInt64}
    (h : ¬ (Access.read w address).Meets start w'.bytes) :
    (mem.store start (bytesOf w'.bytes value)).load address w = mem.load address w := by
  have hlength : (bytesOf w'.bytes value).length = w'.bytes := length_bytesOf ..
  refine load_store_of_apart _ ?_ fun i hi ↦ ?_
  · rw [hlength]
    exact Nat.le_trans w'.bytes_le_four (by decide)
  · rw [hlength]
    exact Nat.not_lt.1 fun hlt ↦ h ⟨i, hi, hlt⟩

/-- So it is inside a block, by the places in the block. -/
theorem Memory.load_store_add {offset stored : UInt64} (base : UInt64)
    (h : ¬ (Access.read w offset).Meets stored w'.bytes) :
    (mem.store (base + stored) (bytesOf w'.bytes value)).load (base + offset) w =
      mem.load (base + offset) w :=
  mem.load_store_of_not_meets w' value fun hmeets ↦ h (Access.meets_shift_iff.1 hmeets)

end Stores

namespace Event

variable {e : Event} {footprint footprint' : List Access} {base offset : UInt64} {size : Nat}

/-- The bus access that the event is. -/
def access? : Event → Option Access
  | busRead w a _ => some (.read w a)
  | busWrite w a _ => some (.write w a)
  | _ => none

/-- A bus access of the footprint, a reading of the clock, a delay or a log record. -/
def Within (footprint : List Access) : Event → Prop
  | busRead w a _ => .read w a ∈ footprint
  | busWrite w a _ => .write w a ∈ footprint
  | csrRead .. | csrWrite .. | fence => False
  | clockRead _ | delay _ | log .. => True

theorem Within.mono (h : e.Within footprint) (hsub : footprint ⊆ footprint') :
    e.Within footprint' := by
  cases e with
  | busRead | busWrite => exact hsub h
  | _ => exact h

theorem Within.csrWrite?_eq_none (h : e.Within footprint) : e.csrWrite? = none := by
  cases e with
  | csrWrite => exact h.elim
  | _ => rfl

theorem Within.mem_of_access? (h : e.Within footprint) {a : Access} (ha : e.access? = some a) :
    a ∈ footprint := by
  cases e with
  | busRead | busWrite =>
    cases ha
    exact h
  | _ => cases ha

/-- The event is no access to any of the `size` bytes from `base` on. -/
def Avoids (base : UInt64) (size : Nat) (e : Event) : Prop :=
  ∀ a, e.access? = some a → ¬ a.Meets base size

theorem Within.avoids (h : e.Within footprint) (hfp : ∀ a ∈ footprint, ¬ a.Meets base size) :
    e.Avoids base size :=
  fun a ha ↦ hfp a (h.mem_of_access? ha)

/-! ### Values written -/

/-- The value that the event writes to an address. -/
def writtenTo? (address : UInt64) : Event → Option UInt32
  | busWrite _ a value => if a = address then some value else none
  | _ => none

theorem writtenTo?_of_isBus_eq_false (h : e.isBus = false) (address : UInt64) :
    e.writtenTo? address = none := by
  cases e with
  | busWrite => cases h
  | _ => rfl

theorem writtenTo?_busWrite_add (w : Width) (base offset offset' : UInt64) (value : UInt32) :
    writtenTo? (base + offset') (.busWrite w (base + offset) value) =
      if offset = offset' then some value else none := by
  simp only [writtenTo?, UInt64.add_right_inj]

/-- What avoids a block writes none of its registers. -/
theorem Avoids.writtenTo?_eq_none (h : e.Avoids base size) (hoffset : offset.toNat < size) :
    e.writtenTo? (base + offset) = none := by
  cases e with
  | busWrite w a value =>
    exact if_neg fun ha ↦ h _ rfl (Access.meets_of_address_eq ha hoffset)
  | _ => rfl

/-- An address that is not written within a footprint is left alone. -/
theorem Within.writtenTo?_eq_none (h : e.Within footprint) {address : UInt64}
    (hfp : ∀ w, .write w address ∉ footprint) : e.writtenTo? address = none := by
  cases e with
  | busWrite w a value =>
    refine if_neg ?_
    rintro rfl
    exact hfp w h
  | _ => rfl

end Event

/-- The values written to an address, in order. -/
def written (address : UInt64) (es : List Event) : List UInt32 :=
  es.filterMap (Event.writtenTo? address)

/-- The value written to an address last. -/
def lastWritten (address : UInt64) (es : List Event) : Option UInt32 :=
  (written address es).getLast?

section Written

variable {address : UInt64} {es fs : List Event}

@[simp] theorem written_nil : written address [] = [] := rfl

theorem written_append : written address (es ++ fs) = written address es ++ written address fs :=
  List.filterMap_append

theorem written_eq_nil (h : ∀ e ∈ es, e.writtenTo? address = none) : written address es = [] :=
  List.filterMap_eq_nil_iff.2 h

theorem lastWritten_append :
    lastWritten address (es ++ fs) = (lastWritten address fs).or (lastWritten address es) := by
  rw [lastWritten, written_append, List.getLast?_append, lastWritten, lastWritten]

theorem lastWritten_singleton (e : Event) : lastWritten address [e] = e.writtenTo? address := by
  rw [lastWritten, written, List.filterMap_cons]
  cases e.writtenTo? address <;> rfl

/-- Only bus accesses write. -/
theorem written_filter_isBus : written address (es.filter Event.isBus) = written address es := by
  rw [written, List.filterMap_filter, written]
  refine congrArg (es.filterMap ·) (funext fun e ↦ ?_)
  cases hbus : e.isBus with
  | true => rfl
  | false => exact (Event.writtenTo?_of_isBus_eq_false hbus address).symm

end Written

/-! ### Footprints of register blocks -/

namespace Block

variable {b : Block} {reads writes : List UInt64} {offset : UInt64} {p : Event → Prop}

/-- Reads of some registers of the block and writes of others. -/
def footprint (b : Block) (reads writes : List UInt64) : List Access :=
  reads.map (fun offset ↦ .read (b.layout.width offset) (b.base + offset)) ++
    writes.map fun offset ↦ .write (b.layout.width offset) (b.base + offset)

/-- A block has the footprint of one at address zero, shifted to its base. -/
theorem footprint_eq_map_shift (b : Block) (reads writes : List UInt64) :
    b.footprint reads writes =
      (footprint ⟨0, b.layout⟩ reads writes).map (Access.shift b.base) := by
  simp only [footprint, List.map_append, List.map_map, Function.comp_def, Access.shift,
    UInt64.zero_add]

/-- A write of a register belongs to the footprint only if it does so by its offset. -/
theorem offset_mem_of_write_mem {w : Width}
    (h : .write w (b.base + offset) ∈ b.footprint reads writes) :
    offset ∈ writes := by
  rcases List.mem_append.1 h with h | h
  · obtain ⟨_, -, ⟨⟩⟩ := List.mem_map.1 h
  · obtain ⟨o, ho, heq⟩ := List.mem_map.1 h
    injection heq with _ haddress
    rwa [← (UInt64.add_right_inj b.base).1 haddress]

variable {footprint : List Access}

theorem emits_read_within (hp : ∀ e : Event, e.Within (b.footprint reads writes) → p e)
    (h : offset ∈ reads) : Emits p (b.read offset : Firmware UInt32) :=
  emits_read fun _ ↦ hp _ (List.mem_append_left _ (List.mem_map_of_mem h))

theorem emits_write_within (hp : ∀ e : Event, e.Within (b.footprint reads writes) → p e)
    (h : offset ∈ writes) (value : UInt32) : Emits p (b.write offset value : Firmware Unit) :=
  emits_write (hp _ (List.mem_append_right _ (List.mem_map_of_mem h)))

end Block

end BringUp
