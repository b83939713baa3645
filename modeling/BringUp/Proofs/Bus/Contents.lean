import Mathlib.Algebra.Group.Nat.Defs
import BringUp.Bus.Script
import BringUp.Proofs.Bus.Memory

/-!
# Memory as bytes

Memory is seen through accesses of three widths, at any address and overlapping in any way. What
they show is one byte for each address: an access that ends inside the address space has the value
that the bytes from its address on spell, the lowest byte first (`Memory.Shows`).

Storing a value, setting bits and clearing bits are one operation on such contents
(`Contents.edit`). A byte that the access covers becomes a function of what it was and of the byte
of the operand at the same place; other bytes stay. A byte of the operand beyond the width has no
place in the access, so nothing has to be said about operands that are too wide.

What the changes before left behind are contents again, whatever their widths were and wherever
they met. So the contents are all that the induction over a sequence of changes carries along
(`Act.shows_applyAll`), and after it a step is described as before it.

Contents are indexed by numbers, so that an access covers an interval of them. Addresses are words
and wrap; an access that ends inside the address space does not notice (`toNat_add_ofNat`).
-/

namespace BringUp

/-! ### Bytes of a value -/

/-- The byte at a place of a value, the lowest at place zero. -/
def byteOf (value : UInt32) (i : Nat) : UInt8 :=
  UInt8.ofNat (value.toNat >>> (8 * i))

theorem byteOf_at_zero (value : UInt32) : byteOf value 0 = value.toUInt8 := by
  refine UInt8.toNat_inj.1 ?_
  rw [byteOf, UInt8.toNat_ofNat', UInt32.toNat_toUInt8]
  rfl

theorem byteOf_succ (value : UInt32) (i : Nat) : byteOf value (i + 1) = byteOf (value / 256) i := by
  have hrest : value.toNat >>> 8 = (value / 256).toNat := by
    rw [UInt32.toNat_div, Nat.shiftRight_eq_div_pow]
    rfl
  rw [byteOf, byteOf, Nat.mul_succ, Nat.add_comm, Nat.shiftRight_add, hrest]

theorem getLsbD_byteOf (value : UInt32) (i : Nat) {j : Nat} (hj : j < 8) :
    (byteOf value i).toBitVec.getLsbD j = value.toBitVec.getLsbD (8 * i + j) := by
  rw [byteOf, UInt8.toBitVec_ofNat', BitVec.getLsbD_ofNat, Nat.testBit_shiftRight]
  simp [hj, BitVec.getLsbD]

theorem byteOf_or (a b : UInt32) (i : Nat) : byteOf (a ||| b) i = byteOf a i ||| byteOf b i := by
  refine UInt8.toBitVec_inj.1 (BitVec.eq_of_getLsbD_eq fun j hj ↦ ?_)
  simp only [getLsbD_byteOf _ _ hj, UInt8.toBitVec_or, UInt32.toBitVec_or, BitVec.getLsbD_or]

theorem byteOf_and_not (a b : UInt32) (i : Nat) :
    byteOf (a &&& ~~~b) i = byteOf a i &&& ~~~byteOf b i := by
  refine UInt8.toBitVec_inj.1 (BitVec.eq_of_getLsbD_eq fun j hj ↦ ?_)
  simp only [getLsbD_byteOf _ _ hj, UInt8.toBitVec_and, UInt8.toBitVec_not, UInt32.toBitVec_and,
    UInt32.toBitVec_not, BitVec.getLsbD_and, BitVec.getLsbD_not, decide_eq_true hj, Bool.true_and]
  rcases Nat.lt_or_ge (8 * i + j) 32 with hbit | hbit
  · rw [decide_eq_true hbit, Bool.true_and]
  · -- the complement has no bits up there, but neither has what it is joined with
    rw [BitVec.getLsbD_of_ge a.toBitVec _ hbit, Bool.false_and, Bool.false_and]

/-- A value is determined by its bytes. -/
theorem eq_of_byteOf_eq {a b : UInt32} (h : ∀ i < 4, byteOf a i = byteOf b i) : a = b := by
  refine UInt32.toBitVec_inj.1 (BitVec.eq_of_getLsbD_eq fun j hj ↦ ?_)
  have hbit : j % 8 < 8 := Nat.mod_lt j (by decide)
  have hbits := congrArg (fun byte ↦ byte.toBitVec.getLsbD (j % 8)) (h (j / 8) (by omega))
  simp only [getLsbD_byteOf _ _ hbit, Nat.div_add_mod] at hbits
  exact hbits

theorem getElem?_bytesOf (n : Nat) (value : UInt32) (i : Nat) :
    (bytesOf n value)[i]? = if i < n then some (byteOf value i) else none := by
  induction n generalizing value i with
  | zero => rfl
  | succ n ih =>
    cases i with
    | zero => rw [bytesOf, List.getElem?_cons_zero, byteOf_at_zero, if_pos (Nat.succ_pos n)]
    | succ i =>
      rw [bytesOf, List.getElem?_cons_succ, ih, byteOf_succ]
      simp only [Nat.succ_lt_succ_iff]

/-! ### Values that bytes spell -/

theorem toNat_ofBytes_cons (b : UInt8) (bs : List UInt8) :
    (ofBytes (b :: bs)).toNat = (b.toNat + 256 * (ofBytes bs).toNat) % UInt32.size := by
  simp only [ofBytes, UInt32.toNat_add, UInt32.toNat_mul, UInt8.toNat_toUInt32, UInt32.reduceToNat]
  rw [UInt32.size]
  omega

theorem toNat_ofBytes_lt (bs : List UInt8) : (ofBytes bs).toNat < 256 ^ bs.length := by
  induction bs with
  | nil => decide
  | cons b bs ih =>
    have hb := b.toNat_lt
    have hle := Nat.mod_le (b.toNat + 256 * (ofBytes bs).toNat) UInt32.size
    rw [← toNat_ofBytes_cons] at hle
    rw [List.length_cons, Nat.pow_succ]
    omega

/-- At most four bytes are the bytes of the value that they spell, and it has no others. -/
theorem byteOf_ofBytes {bs : List UInt8} (h : bs.length ≤ 4) (i : Nat) :
    byteOf (ofBytes bs) i = bs[i]?.getD 0 := by
  induction bs generalizing i with
  | nil => simp [ofBytes, byteOf]
  | cons b bs ih =>
    rw [List.length_cons] at h
    have hb := b.toNat_lt
    -- three bytes leave room for a fourth, so nothing is carried out of the value
    have hvalue : (ofBytes (b :: bs)).toNat = b.toNat + 256 * (ofBytes bs).toNat := by
      have hlt : (ofBytes bs).toNat < 256 ^ 3 :=
        Nat.lt_of_lt_of_le (toNat_ofBytes_lt bs) (Nat.pow_le_pow_right (by decide) (by omega))
      rw [toNat_ofBytes_cons, UInt32.size]
      omega
    cases i with
    | zero =>
      refine UInt8.toNat_inj.1 ?_
      rw [byteOf_at_zero, UInt32.toNat_toUInt8, hvalue, List.getElem?_cons_zero, Option.getD_some]
      omega
    | succ i =>
      have hrest : ofBytes (b :: bs) / 256 = ofBytes bs := by
        refine UInt32.toNat_inj.1 ?_
        rw [UInt32.toNat_div, hvalue, show (256 : UInt32).toNat = 256 from rfl]
        omega
      rw [byteOf_succ, hrest, ih (by omega), List.getElem?_cons_succ]

/-! ### Contents -/

/-- An access reaches the byte at an address. -/
def Width.Covers (w : Width) (start : UInt64) (a : Nat) : Prop :=
  start.toNat ≤ a ∧ a < start.toNat + w.bytes

instance (w : Width) (start : UInt64) (a : Nat) : Decidable (w.Covers start a) :=
  inferInstanceAs (Decidable (_ ∧ _))

/-- A byte for every address. -/
abbrev Contents := Nat → UInt8

namespace Contents

variable (contents : Contents) {change change' : UInt8 → UInt8 → UInt8} {start : UInt64}
  {w : Width} {value value' : UInt32}

/-- Each byte that an access covers becomes a function of what it was and of the byte of a value at
the same place. The others stay. -/
def edit (change : UInt8 → UInt8 → UInt8) (start : UInt64) (w : Width) (value : UInt32) :
    Contents := fun a ↦
  if w.Covers start a then change (contents a) (byteOf value (a - start.toNat)) else contents a

/-- Edits are the same if they are so at every place of the access. -/
theorem edit_congr (h : ∀ i < w.bytes, change (contents (start.toNat + i)) (byteOf value i) =
      change' (contents (start.toNat + i)) (byteOf value' i)) :
    contents.edit change start w value = contents.edit change' start w value' := by
  funext a
  rw [edit, edit]
  by_cases ha : w.Covers start a
  · have hplace := h (a - start.toNat) (Nat.sub_lt_left_of_lt_add ha.1 ha.2)
    rw [Nat.add_sub_cancel' ha.1] at hplace
    rw [if_pos ha, if_pos ha, hplace]
  · rw [if_neg ha, if_neg ha]

end Contents

namespace Memory

variable {mem : Memory} {contents : Contents} {a start : UInt64} {w : Width}

/-- An access that ends inside the address space returns the value whose bytes are those from its
address on, the lowest one first, and which has no others. -/
def Shows (mem : Memory) (contents : Contents) : Prop :=
  ∀ (a : UInt64) (w : Width), w.fits a →
    ∃ value, mem.get? a w = some value ∧
      ∀ i, byteOf value i = if i < w.bytes then contents (a.toNat + i) else 0

theorem byteOf_load (mem : Memory) (a : UInt64) (w : Width) (i : Nat) :
    byteOf (mem.load a w) i = if i < w.bytes then mem.byte (a + UInt64.ofNat i) else 0 := by
  have hlength := mem.length_bytesAt a w.bytes
  rw [load, byteOf_ofBytes (by rw [hlength]; exact w.bytes_le_four)]
  by_cases hi : i < w.bytes
  · rw [List.getElem?_eq_getElem (by rwa [hlength]), getElem_bytesAt, Option.getD_some, if_pos hi]
  · rw [List.getElem?_eq_none (by rw [hlength]; omega), Option.getD_none, if_neg hi]

/-- What accesses of every width show is what there is at every address. -/
theorem shows_iff : mem.Shows contents ↔ ∀ a : UInt64, mem.byte a = contents a.toNat := by
  constructor
  · intro h a
    have hfits : Width.byte.fits a := Width.fits_iff.2 a.toNat_lt
    obtain ⟨value, hvalue, hbytes⟩ := h a .byte hfits
    rw [get?, if_pos hfits] at hvalue
    have hfirst := hbytes 0
    rw [← Option.some.inj hvalue, byteOf_load, if_pos Width.byte.bytes_pos,
      if_pos Width.byte.bytes_pos] at hfirst
    simpa using hfirst
  · intro h a w hfits
    refine ⟨mem.load a w, if_pos hfits, fun i ↦ ?_⟩
    rw [byteOf_load]
    by_cases hi : i < w.bytes
    · rw [if_pos hi, if_pos hi, h, toNat_add_ofNat (Width.fits_iff.1 hfits) hi]
    · rw [if_neg hi, if_neg hi]

theorem shows_empty : empty.Shows fun _ ↦ 0 :=
  shows_iff.2 byte_empty

/-- A value that is read, changed and stored at one place is stored if the place can be read. -/
theorem get?_bind_put? (mem : Memory) (start : UInt64) (w : Width) (f : UInt32 → UInt32) :
    (mem.get? start w).bind (fun value ↦ mem.put? start w (f value)) =
      mem.put? start w (f (mem.load start w)) := by
  cases hfits : w.fits start <;> simp [get?, put?, hfits]

theorem fits_of_put? {after : Memory} {value : UInt32} (h : mem.put? start w value = some after) :
    w.fits start := by
  unfold put? at h
  split at h
  · assumption
  · cases h

namespace Shows

variable (h : mem.Shows contents) (hfits : w.fits start) (value : UInt32)
include h hfits

theorem byteOf_load {i : Nat} (hi : i < w.bytes) :
    byteOf (mem.load start w) i = contents (start.toNat + i) := by
  rw [Memory.byteOf_load, if_pos hi, shows_iff.1 h, toNat_add_ofNat (Width.fits_iff.1 hfits) hi]

/-- A value is what an access returns if the bytes are the right ones. -/
theorem get?_eq (hvalue : ∀ i < 4, byteOf value i =
      if i < w.bytes then contents (start.toNat + i) else 0) : mem.get? start w = some value := by
  obtain ⟨value', hget, hbytes⟩ := h start w hfits
  rw [hget, eq_of_byteOf_eq fun i hi ↦ (hbytes i).trans (hvalue i hi).symm]

/-- Storing replaces the bytes that the access covers. -/
theorem put : ∃ after, mem.put? start w value = some after ∧
    after.Shows (contents.edit (fun _ new ↦ new) start w value) := by
  have hend := Width.fits_iff.1 hfits
  have hlength : (bytesOf w.bytes value).length ≤ UInt64.size := by
    rw [length_bytesOf]
    exact Nat.le_trans w.bytes_le_four (by decide)
  refine ⟨_, if_pos hfits, shows_iff.2 fun a ↦ ?_⟩
  rw [byte_store _ _ _ _ hlength, getElem?_bytesOf, shows_iff.1 h, Contents.edit]
  by_cases ha : w.Covers start a.toNat
  · rw [if_pos ((toNat_sub_lt_iff hend).2 ha), if_pos ha, Option.getD_some,
      UInt64.toNat_sub_of_le _ _ (UInt64.le_iff_toNat_le.2 ha.1)]
  · rw [if_neg (mt (toNat_sub_lt_iff hend).1 ha), if_neg ha, Option.getD_none]

/-- Reading, changing byte by byte and storing changes the bytes that the access covers. -/
theorem update {f : UInt32 → UInt32} {change : UInt8 → UInt8 → UInt8}
    (hf : ∀ old i, byteOf (f old) i = change (byteOf old i) (byteOf value i)) :
    ∃ after, (mem.get? start w).bind (fun old ↦ mem.put? start w (f old)) = some after ∧
      after.Shows (contents.edit change start w value) := by
  obtain ⟨after, hput, hafter⟩ := h.put hfits (f (mem.load start w))
  have hedit : contents.edit (fun _ new ↦ new) start w (f (mem.load start w)) =
      contents.edit change start w value :=
    contents.edit_congr fun i hi ↦ by rw [hf, h.byteOf_load hfits hi]
  exact ⟨after, (mem.get?_bind_put? start w f).trans hput, hedit ▸ hafter⟩

theorem raise : ∃ after, mem.raise? start w value = some after ∧
    after.Shows (contents.edit (· ||| ·) start w value) :=
  h.update hfits value fun old ↦ byteOf_or old value

theorem lower : ∃ after, mem.lower? start w value = some after ∧
    after.Shows (contents.edit (fun old named ↦ old &&& ~~~named) start w value) :=
  h.update hfits value fun old ↦ byteOf_and_not old value

end Shows

end Memory

/-! ### Changes in turn -/

/-- What a change makes of a byte, given the byte of its operand at the same place. -/
def Change.onByte : Change → UInt8 → UInt8 → UInt8
  | put, _, new => new
  | raise, old, named | raiseCarried, old, named => old ||| named
  | lower, old, named | lowerCarried, old, named => old &&& ~~~named

namespace Act

variable {act : Act} {acts : List Act} {carried : UInt32} {mem after : Memory} {contents : Contents}

/-- The bits that a change is made with, on an access that carried `carried`. -/
def operand (act : Act) (carried : UInt32) : UInt32 :=
  match act.change with
  | .put | .raise | .lower => act.bits
  | .raiseCarried | .lowerCarried => carried &&& act.bits

/-- The change reaches the byte at an address. -/
def Covers (act : Act) (a : Nat) : Prop :=
  act.width.Covers act.address a

/-- What a change makes of contents. -/
def edit (act : Act) (carried : UInt32) (contents : Contents) : Contents :=
  contents.edit act.change.onByte act.address act.width (act.operand carried)

/-- What changes in order make of contents. -/
def editAll (acts : List Act) (carried : UInt32) (contents : Contents) : Contents :=
  acts.foldl (fun contents act ↦ act.edit carried contents) contents

/-- What changes in order make of zeros. -/
def outcome (acts : List Act) (carried : UInt32) : Contents :=
  editAll acts carried fun _ ↦ 0

/-- Bytes that no change reaches stay. -/
theorem editAll_of_not_covers {a : Nat} (h : ∀ act ∈ acts, ¬ act.Covers a) :
    editAll acts carried contents a = contents a := by
  induction acts generalizing contents with
  | nil => rfl
  | cons act acts ih =>
    obtain ⟨hfirst, hrest⟩ := List.forall_mem_cons.1 h
    exact (ih hrest).trans (if_neg hfirst)

/-- A change inside the address space can be made, and the bytes show it. -/
theorem exists_apply (h : mem.Shows contents) (hfits : act.width.fits act.address) :
    ∃ after, act.apply carried mem = some after ∧ after.Shows (act.edit carried contents) := by
  obtain ⟨change, address, w, bits⟩ := act
  cases change with
  | put => exact h.put hfits bits
  | raise => exact h.raise hfits bits
  | lower => exact h.lower hfits bits
  | raiseCarried => exact h.raise hfits (carried &&& bits)
  | lowerCarried => exact h.lower hfits (carried &&& bits)

theorem fits_of_apply (h : act.apply carried mem = some after) : act.width.fits act.address := by
  obtain ⟨change, address, w, bits⟩ := act
  cases change with
  | put => exact Memory.fits_of_put? h
  | raise | lower | raiseCarried | lowerCarried =>
    exact Memory.fits_of_put? ((mem.get?_bind_put? address w _).symm.trans h)

theorem shows_apply (h : mem.Shows contents) (happly : act.apply carried mem = some after) :
    after.Shows (act.edit carried contents) := by
  obtain ⟨after', hafter', hshows⟩ := exists_apply h (fits_of_apply happly)
  rw [happly] at hafter'
  rwa [Option.some.inj hafter']

/-- **Memory is what the changes make of its bytes.** -/
theorem shows_applyAll (h : mem.Shows contents) (happly : applyAll acts carried mem = some after) :
    after.Shows (editAll acts carried contents) := by
  induction acts generalizing mem contents with
  | nil => exact Option.some.inj happly ▸ h
  | cons act acts ih =>
    rw [applyAll, List.foldlM_cons] at happly
    obtain ⟨mem', hfirst, hrest⟩ := Option.bind_eq_some_iff.1 happly
    exact ih (shows_apply h hfirst) hrest

/-- Changes inside the address space can be made one after the other. -/
theorem exists_applyAll (h : mem.Shows contents)
    (hfits : ∀ act ∈ acts, act.width.fits act.address) :
    ∃ after, applyAll acts carried mem = some after := by
  induction acts generalizing mem contents with
  | nil => exact ⟨mem, rfl⟩
  | cons act acts ih =>
    obtain ⟨hfirst, hrest⟩ := List.forall_mem_cons.1 hfits
    obtain ⟨mem', happly, hmem'⟩ := exists_apply h hfirst
    obtain ⟨after, hafter⟩ := ih hmem' hrest
    exact ⟨after, Option.bind_eq_some_iff.2 ⟨mem', happly, hafter⟩⟩

end Act

namespace Memory

/-- **Memory that was changed in any way is read byte by byte, the lowest byte first.** Start from
nothing stored, and let values be stored and bits be set and cleared, in any order, at any addresses
and with any widths. Every access that ends inside the address space then shows what these changes
make of zeros, byte by byte, and zero at each place that none of them reached. One more change that
ends inside the address space can be made, whatever its operand is, and the accesses after it may
overlap it in any way. At each place that it covers they find the byte of the operand at that place,
or the former byte with the bits of that one set, or with these bits cleared, and everywhere else
the former byte. -/
theorem changed_bytewise {acts : List Act} {carried : UInt32} {mem : Memory}
    (h : Act.applyAll acts carried .empty = some mem) :
    mem.Shows (Act.outcome acts carried) ∧
    (∀ (a : UInt64) (w : Width), w.fits a → ∃ value, mem.get? a w = some value ∧
      ∀ i < w.bytes, (∀ act ∈ acts, ¬ act.Covers (a.toNat + i)) → byteOf value i = 0) ∧
    ∀ (start : UInt64) (w : Width), w.fits start → ∀ value,
      (∃ after, mem.put? start w value = some after ∧
        after.Shows ((Act.outcome acts carried).edit (fun _ new ↦ new) start w value)) ∧
      (∃ after, mem.raise? start w value = some after ∧
        after.Shows ((Act.outcome acts carried).edit (· ||| ·) start w value)) ∧
      ∃ after, mem.lower? start w value = some after ∧
        after.Shows ((Act.outcome acts carried).edit (fun old named ↦ old &&& ~~~named)
          start w value) := by
  have hshows : mem.Shows (Act.outcome acts carried) := Act.shows_applyAll shows_empty h
  refine ⟨hshows, fun a w hfits ↦ ?_, fun start w hfits value ↦
    ⟨hshows.put hfits value, hshows.raise hfits value, hshows.lower hfits value⟩⟩
  obtain ⟨value, hvalue, hbytes⟩ := hshows a w hfits
  refine ⟨value, hvalue, fun i hi hunset ↦ ?_⟩
  rw [hbytes, if_pos hi]
  exact Act.editAll_of_not_covers hunset

/-- A word is stored, bits are set across its upper end and cleared inside it with operands that are
too wide, and bits are set at the end of the address space. -/
def overlappingActs : List Act :=
  [⟨.put, 0x1000, .word, 0x11223344⟩, ⟨.raise, 0x1003, .half, 0xFFFF8001⟩,
    ⟨.lower, 0x1001, .byte, 0x130⟩, ⟨.raise, 0xFFFFFFFFFFFFFFFE, .half, 0x8000⟩]

/-- Two bytes of three are stored across the lower end of the word, and a word is read that begins
below them, where nothing was stored, and ends above them. Bits are cleared across the upper end. -/
theorem changed_bytewise_overlapping : ∃ mem stored cleared : Memory,
    Act.applyAll overlappingActs 0 .empty = some mem ∧
      mem.get? 0x1001 .word = some 0x80112203 ∧
      mem.get? 0xFFFFFFFFFFFFFFFF .byte = some 0x80 ∧
      mem.put? 0x0FFF .half 0xABCDEF = some stored ∧
      stored.get? 0x0FFE .word = some 0x03CDEF00 ∧
      mem.lower? 0x1003 .word 0xFFFFFF01 = some cleared ∧
      cleared.get? 0x1002 .half = some 0x1022 := by
  obtain ⟨mem, hmem⟩ : ∃ mem, Act.applyAll overlappingActs 0 .empty = some mem :=
    Act.exists_applyAll shows_empty (by decide)
  obtain ⟨hshows, -, hchange⟩ := changed_bytewise hmem
  obtain ⟨stored, hput, hstored⟩ := (hchange 0x0FFF .half (by decide) 0xABCDEF).1
  obtain ⟨cleared, hlower, hcleared⟩ := (hchange 0x1003 .word (by decide) 0xFFFFFF01).2.2
  exact ⟨mem, stored, cleared, hmem, hshows.get?_eq (by decide) _ (by decide),
    hshows.get?_eq (by decide) _ (by decide), hput, hstored.get?_eq (by decide) _ (by decide),
    hlower, hcleared.get?_eq (by decide) _ (by decide)⟩

end Memory

end BringUp
