import BringUp.Proofs.Board.Surroundings
import BringUp.Proofs.Machine.Progress
import BringUp.Proofs.Machine.Registers
import Mathlib.Logic.Function.Basic

/-!
# Write-protected pins

A function register of the pin controller can be written only while `writable` is set, and a write
to the protection register changes `writable` only if `blocked` was clear before it (`PinStep`). So
what a write does depends on what the writes before it left. Two writes to the protection register,
the first of them zero, leave it as the second says, whatever it held (`PinState.protect_protect`).

Routing opens and closes it in this way. Hence it takes effect whatever the registers held before,
and leaves them locked (`route_from_any_protection`).
-/

namespace BringUp.Board

open Firmware

/-! ### Groups of pins -/

/-- The groups of pins on which the console can be. -/
inductive PinGroup
  /-- Group 6. -/
  | six
  /-- Group 38. -/
  | thirtyEight
  deriving Repr, DecidableEq, Inhabited

namespace PinGroup

/-- Registers and values of a group, as in the manual. -/
def route : PinGroup → PinRoute
  | six => ⟨0x216, 0x18, 0x458, 0x00066000⟩
  | thirtyEight => ⟨0x236, 0x03, 0x4D8, 0x00000011⟩

/-- The group that a fuse word selects by its low bits. -/
def ofFuses (word : UInt32) : PinGroup :=
  if word.toNat % 16 = 1 then six else thirtyEight

theorem ofFuses_eq_six_iff {word : UInt32} : ofFuses word = six ↔ word.toNat % 16 = 1 := by
  unfold ofFuses
  split
  · next h => exact iff_of_true rfl h
  · next h => exact iff_of_false nofun h

/-- The firmware routes the console to that group. -/
theorem pins_ofFuses (word : UInt32) : (Package.ofFuses word).pins = (ofFuses word).route := by
  have hid : word &&& Fuse.deviceMask = Fuse.secondPackage ↔ word.toNat % 16 = 1 := by
    rw [← UInt32.toNat_inj, UInt32.toNat_and]
    exact Eq.congr_left (Nat.and_two_pow_sub_one_eq_mod word.toNat 4)
  by_cases h : word.toNat % 16 = 1
  · rw [Package.ofFuses, ofFuses, if_pos (hid.2 h), if_pos h]
    rfl
  · rw [Package.ofFuses, ofFuses, if_neg (mt hid.1 h), if_neg h]
    rfl

variable (pins : Pins) (g : PinGroup)

theorem width_mode : pins.block.layout.width g.route.mode = .byte := by
  cases g <;> rfl

theorem width_function : pins.block.layout.width g.route.function = .word := by
  cases g <;> rfl

/-- Accesses to the pin controller that route the console to a group. -/
def accesses : List Access :=
  [.write .word 0x3014, .write .word g.route.function, .read .byte g.route.mode,
    .write .byte g.route.mode]

/-- They do not reach the registers of the other group. -/
theorem accesses_not_meet {other : PinGroup} (hother : other ≠ g) : ∀ a ∈ g.accesses,
    ¬ a.Meets other.route.mode 1 ∧ ¬ a.Meets other.route.function 4 := by
  cases g with
  | six =>
    cases other with
    | six => exact absurd rfl hother
    | thirtyEight => decide
  | thirtyEight =>
    cases other with
    | six => decide
    | thirtyEight => exact absurd rfl hother

theorem accesses_le : ∀ a ∈ g.accesses, a.address.toNat + a.width.bytes ≤ 0x3018 := by
  cases g <;> decide

end PinGroup

/-! ### Registers -/

/-- What the registers that route the pins hold. -/
@[ext]
structure PinState where
  /-- `writable` cannot be changed. -/
  blocked : Bool
  /-- Function registers can be written. -/
  writable : Bool
  /-- The mode registers. -/
  mode : PinGroup → UInt8
  /-- The function registers. -/
  function : PinGroup → UInt32
  /-- The fuse word with the device number. -/
  fuse : UInt32

namespace PinState

/-- A write to the protection register. -/
def protect (s : PinState) (value : UInt32) : PinState :=
  { s with
    blocked := value &&& 0x80 != 0
    writable := if s.blocked then s.writable else value &&& 0x40 != 0 }

/-- A write to a function register. -/
def setFunction (s : PinState) (g : PinGroup) (value : UInt32) : PinState :=
  if s.writable then { s with function := Function.update s.function g value } else s

/-- A write to a mode register. -/
def setMode (s : PinState) (g : PinGroup) (value : UInt8) : PinState :=
  { s with mode := Function.update s.mode g value }

/-- The protection register. -/
def protection (s : PinState) : UInt32 :=
  match s.blocked, s.writable with
  | false, false => 0
  | false, true => 0x40
  | true, false => 0x80
  | true, true => 0xC0

theorem protection_and (s : PinState) :
    (s.protection &&& 0x80 != 0) = s.blocked ∧ (s.protection &&& 0x40 != 0) = s.writable := by
  unfold protection
  split <;> simp only [*] <;> decide

/-- What routing makes of the registers. -/
def routed (s : PinState) (g : PinGroup) : PinState :=
  { s with
    blocked := true
    writable := false
    mode := Function.update s.mode g (s.mode g ||| g.route.modeMask.toUInt8)
    function := Function.update s.function g g.route.functionValue }

/-- **After zero was written, any value can be written to the protection register.** -/
theorem protect_protect (s : PinState) (value : UInt32) :
    (s.protect 0).protect value =
      { s with blocked := value &&& 0x80 != 0, writable := value &&& 0x40 != 0 } :=
  rfl

end PinState

namespace Pins

/-- What an access to the pin controller or to the fuses makes of the registers. -/
structure PinStep (pins : Pins) (s : PinState) (e : Event) (s' : PinState) : Prop where
  /-- A write to the protection register. -/
  protect : ∀ value, e = .busWrite .word (pins.base + 0x3014) value → s' = s.protect value
  /-- A write to a function register. -/
  setFunction : ∀ (g : PinGroup) value,
    e = .busWrite .word (pins.base + g.route.function) value → s' = s.setFunction g value
  /-- A write to a mode register. -/
  setMode : ∀ (g : PinGroup) value,
    e = .busWrite .byte (pins.base + g.route.mode) value → s' = s.setMode g value.toUInt8
  /-- A reading of a mode register. -/
  mode : ∀ (g : PinGroup) value, e = .busRead .byte (pins.base + g.route.mode) value →
    value = (s.mode g).toUInt32 ∧ s' = s
  /-- A reading of the fuse word. -/
  fuse : ∀ value, e = .busRead .word (pins.fuses + 0x1178) value → value = s.fuse ∧ s' = s

/-- The pin controller and the fuses lie inside the address space, apart from each other. -/
structure Placed (pins : Pins) : Prop where
  /-- The registers of the pin controller. -/
  block_fits : pins.base.toNat + 0x3018 ≤ UInt64.size
  /-- The fuse words. -/
  fuses_fit : pins.fuses.toNat + 0x117C ≤ UInt64.size
  /-- No byte belongs to both. -/
  apart : pins.base.toNat + 0x3018 ≤ pins.fuses.toNat ∨
    pins.fuses.toNat + 0x117C ≤ pins.base.toNat

/-- The console was routed to a group, which made the second contents of the first. -/
structure Routed (pins : Pins) (g : PinGroup) (m : Machine) (s : PinState) (m' : Machine)
    (s' : PinState) : Prop where
  /-- The group is the one that the low bits of the fuse word select. -/
  selected : g = .six ↔ s.fuse.toNat % 16 = 1
  /-- Its function register holds the value of the group. -/
  function_eq : s'.function g = g.route.functionValue
  /-- The pins of the group are added in its mode register. -/
  mode_eq : s'.mode g = s.mode g ||| g.route.modeMask.toUInt8
  /-- The function registers are locked. -/
  locked : s'.blocked = true ∧ s'.writable = false
  /-- The registers of the other group hold what they held. -/
  others_eq : ∀ other ≠ g, s'.function other = s.function other ∧ s'.mode other = s.mode other
  /-- The fuse word was read once, and nothing else reached it or the registers of the other
  group. -/
  accesses : ∃ before after, m'.busTrace = m.busTrace ++
      (before ++ .busRead .word (pins.fuses + 0x1178) s.fuse :: after) ∧
    (∀ e ∈ before ++ after, e.Avoids (pins.fuses + 0x1178) 4) ∧
    ∀ e ∈ before ++ .busRead .word (pins.fuses + 0x1178) s.fuse :: after, ∀ other ≠ g,
      e.Avoids (pins.base + other.route.mode) 1 ∧ e.Avoids (pins.base + other.route.function) 4

variable {pins : Pins} {g : PinGroup} {m m' : Machine}

/-! ### The accesses -/

/-- The accesses of routing before the fuse word is read: they unlock the function registers. -/
def unlocking (pins : Pins) : List Event :=
  [.busWrite .word (pins.base + 0x3014) 0, .busWrite .word (pins.base + 0x3014) 0x40]

/-- The accesses after that: they assign the pins of a group and lock the function registers. -/
def assigning (pins : Pins) (g : PinGroup) (mode : UInt32) : List Event :=
  [.busWrite .word (pins.base + g.route.function) g.route.functionValue,
    .busRead .byte (pins.base + g.route.mode) mode,
    .busWrite .byte (pins.base + g.route.mode)
      (Width.byte.truncate ((mode &&& ~~~0) ||| g.route.modeMask)),
    .busWrite .word (pins.base + 0x3014) 0, .busWrite .word (pins.base + 0x3014) 0x80]

theorem transacts_of_route (h : pins.route m = .ok () m') :
    ∃ fuse mode, m.Transacts (pins.unlocking ++ .busRead .word (pins.fuses + 0x1178) fuse ::
      pins.assigning (.ofFuses fuse) mode) m' := by
  obtain ⟨_, m₁, hopen, h⟩ := bind_eq_ok_iff.1 h
  obtain ⟨package, m₂, hpackage, h⟩ := bind_eq_ok_iff.1 h
  obtain ⟨fuse, _, hfuse, ⟨⟩⟩ := bind_eq_ok_iff.1 hpackage
  rw [PinGroup.pins_ofFuses] at h
  obtain ⟨_, m₃, hnamed, h⟩ := bind_eq_ok_iff.1 h
  obtain ⟨_, m₄, hfunction, h⟩ := bind_eq_ok_iff.1 h
  obtain ⟨_, m₅, hmode, h⟩ := bind_eq_ok_iff.1 h
  obtain ⟨_, m₆, hclose, hlog⟩ := bind_eq_ok_iff.1 h
  obtain ⟨mode, hmode⟩ := Machine.Transacts.of_update hmode
  have hfunction := Machine.Transacts.of_write hfunction
  rw [PinGroup.width_mode] at hmode
  rw [PinGroup.width_function] at hfunction
  exact ⟨fuse, mode, (Machine.Transacts.of_writeInTurn hopen).trans <|
    (Machine.Transacts.of_read hfuse).trans <| (Machine.Transacts.of_log hnamed).trans <|
    hfunction.trans <| hmode.trans <| (Machine.Transacts.of_writeInTurn hclose).trans <|
    .of_log hlog⟩

theorem within_accesses (mode : UInt32) : ∀ e ∈ pins.unlocking ++ pins.assigning g mode,
    e.Within (g.accesses.map (.shift pins.base)) := by
  simp [unlocking, assigning, PinGroup.accesses, Event.Within, Access.shift]

namespace Placed

variable (h : pins.Placed)
include h

theorem toNat_add (offset : UInt64) (hoffset : offset.toNat < 0x3018) :
    (pins.base + offset).toNat = pins.base.toNat + offset.toNat := by
  have hfits := h.block_fits
  rw [UInt64.toNat_add]
  exact Nat.mod_eq_of_lt (Nat.lt_of_lt_of_le (Nat.add_lt_add_left hoffset _) hfits)

theorem toNat_fuse : (pins.fuses + 0x1178).toNat = pins.fuses.toNat + 0x1178 := by
  have hfits := h.fuses_fit
  rw [UInt64.toNat_add]
  exact Nat.mod_eq_of_lt (Nat.lt_of_lt_of_le (Nat.add_lt_add_left (by decide) _) hfits)

/-- No access to the pin controller reaches the fuse word. -/
theorem not_meets_fuse {a : Access} (ha : a.address.toNat + a.width.bytes ≤ 0x3018) :
    ¬ (a.shift pins.base).Meets (pins.fuses + 0x1178) 4 := by
  have hpos := a.width.bytes_pos
  have hplace := h.toNat_add a.address (by omega)
  have hfuse := h.toNat_fuse
  obtain ⟨hblock, hfuses, hapart⟩ := h
  refine Access.not_meets_of_le ?_ ?_ ?_ <;>
    simp only [Access.address_shift, Access.width_shift, hplace, hfuse] <;> omega

/-- Reading the fuse word reaches no register of the pin controller. -/
theorem fuse_not_meets {offset : UInt64} {size : Nat} (hsize : 0 < size)
    (hoffset : offset.toNat + size ≤ 0x3018) :
    ¬ (Access.read .word (pins.fuses + 0x1178)).Meets (pins.base + offset) size := by
  have hplace := h.toNat_add offset (by omega)
  have hfuse := h.toNat_fuse
  obtain ⟨hblock, hfuses, hapart⟩ := h
  refine Access.not_meets_of_le ?_ ?_ ?_ <;>
    simp only [Access.address, Access.width, Width.bytes, hfuse, hplace] <;> omega

theorem fits (offset : UInt64) (hoffset : offset.toNat + 4 ≤ 0x3018) : pins.block.Fits offset := by
  have hbytes := (pins.block.layout.width offset).bytes_le_four
  have hend : pins.base.toNat + offset.toNat + (pins.block.layout.width offset).bytes ≤
      pins.base.toNat + 0x3018 := by omega
  exact Nat.le_trans hend h.block_fits

end Placed

/-- Routing does not fail, and reads twice. -/
theorem concludes_route (h : pins.Placed) : Concludes 2 pins.route := by
  have hfuse : pins.fuseBlock.Fits Fuse.device := h.fuses_fit
  have hprotect := h.fits Protection.offset (by decide)
  have hpackage : Concludes 1 pins.package := .bind hfuse.concludes_read fun _ ↦ .pure _
  have hfunction (package : Package) : pins.block.Fits package.pins.function := by
    rcases package.pins_eq with hpins | hpins <;> exact h.fits _ (by rw [hpins]; decide)
  have hmode (package : Package) : pins.block.Fits package.pins.mode := by
    rcases package.pins_eq with hpins | hpins <;> exact h.fits _ (by rw [hpins]; decide)
  exact .bind (hprotect.concludes_writeInTurn _ _) fun _ ↦ .bind hpackage fun package ↦
    .bind (.log _ _) fun _ ↦ .bind ((hfunction package).concludes_write _) fun _ ↦
      .bind ((hmode package).concludes_update _ _) fun _ ↦
        .bind (hprotect.concludes_writeInTurn _ _) fun _ ↦ .log _ _

/-! ### The contents -/

theorem eq_routed_of_run {s s' : PinState} {fuse mode : UInt32}
    (h : Run pins.PinStep s (pins.unlocking ++ .busRead .word (pins.fuses + 0x1178) fuse ::
      pins.assigning g mode) s') : fuse = s.fuse ∧ s' = s.routed g := by
  obtain ⟨_, h₁, _, h₂, _, h₃, _, h₄, _, h₅, _, h₆, _, h₇, _, h₈, rfl⟩ := h
  obtain rfl := h₁.protect _ rfl
  obtain rfl := h₂.protect _ rfl
  obtain ⟨rfl, rfl⟩ := h₃.fuse _ rfl
  obtain rfl := h₄.setFunction g _ rfl
  obtain ⟨rfl, rfl⟩ := h₅.mode g _ rfl
  obtain rfl := h₆.setMode g _ rfl
  obtain rfl := h₇.protect _ rfl
  obtain rfl := h₈.protect _ rfl
  have hmode : (Width.byte.truncate
      (((s.mode g).toUInt32 &&& ~~~0) ||| g.route.modeMask)).toUInt8 =
        s.mode g ||| g.route.modeMask.toUInt8 := by
    simp [Width.toUInt8_truncate]
  -- the protection was opened for the two registers, and closed after them
  rw [PinState.protect_protect, PinState.protect_protect, PinState.routed, ← hmode]
  exact ⟨rfl, rfl⟩

/-- What the accesses of routing reach. -/
theorem avoids_of_mem (hplaced : pins.Placed) (mode : UInt32) :
    ∀ e ∈ pins.unlocking ++ pins.assigning g mode, e.Avoids (pins.fuses + 0x1178) 4 ∧
      ∀ other ≠ g, e.Avoids (pins.base + other.route.mode) 1 ∧
        e.Avoids (pins.base + other.route.function) 4 := by
  intro e he
  have hwithin := within_accesses mode e he
  refine ⟨hwithin.avoids fun a ha ↦ ?_, fun other hother ↦
    ⟨hwithin.avoids fun a ha ↦ ?_, hwithin.avoids fun a ha ↦ ?_⟩⟩ <;>
    obtain ⟨a, hmem, rfl⟩ := List.mem_map.1 ha
  · exact hplaced.not_meets_fuse (PinGroup.accesses_le g a hmem)
  · rw [Access.meets_shift_iff]
    exact (PinGroup.accesses_not_meet g hother a hmem).1
  · rw [Access.meets_shift_iff]
    exact (PinGroup.accesses_not_meet g hother a hmem).2

/-- Nor does the reading of the fuse word. -/
theorem avoids_of_fuse (hplaced : pins.Placed) (fuse : UInt32) (other : PinGroup) :
    (Event.busRead .word (pins.fuses + 0x1178) fuse).Avoids (pins.base + other.route.mode) 1 ∧
      (Event.busRead .word (pins.fuses + 0x1178) fuse).Avoids (pins.base + other.route.function)
        4 := by
  constructor <;> rintro a ⟨⟩
  · exact hplaced.fuse_not_meets (by decide) (by cases other <;> decide)
  · exact hplaced.fuse_not_meets (by decide) (by cases other <;> decide)

/-- **A pin controller that has seen the accesses of routing has the pins routed.** -/
theorem routed_of_transacts (hplaced : pins.Placed) {d : Device} (regs : Registers d pins.PinStep)
    (hdevice : m.device = d) {fuse mode : UInt32}
    (h : m.Transacts (pins.unlocking ++ .busRead .word (pins.fuses + 0x1178) fuse ::
      pins.assigning (.ofFuses fuse) mode) m') :
    pins.Routed (.ofFuses fuse) m (regs.contents m) m' (regs.contents m') := by
  obtain ⟨rfl, hcontents⟩ := eq_routed_of_run (regs.run h hdevice)
  have havoids := avoids_of_mem (g := .ofFuses (regs.contents m).fuse) hplaced mode
  rw [hcontents]
  refine ⟨PinGroup.ofFuses_eq_six_iff, Function.update_self .., Function.update_self .., ⟨rfl, rfl⟩,
    fun other hother ↦ ⟨Function.update_of_ne hother .., Function.update_of_ne hother ..⟩,
    _, _, h.busTrace_eq, fun e he ↦ (havoids e he).1, fun e he other hother ↦ ?_⟩
  rcases List.mem_cons.1 (List.perm_middle.mem_iff.1 he) with rfl | he
  · exact avoids_of_fuse hplaced _ other
  · exact (havoids e he).2 other hother

/-- **The pins are routed from any state of the write protection, which is closed afterwards.**
Wherever the pin controller and the fuses lie, and whatever the registers and the fuse word hold,
routing ends and has taken effect, and it has accessed no register of the other group. -/
theorem route_from_any_protection (pins : Pins) (hplaced : pins.Placed) {d : Device}
    (regs : Registers d pins.PinStep) (hresponds : d.Responds) (m : Machine)
    (hdevice : m.device = d) (hreads : m.watchdog.busReads + 2 ≤ m.watchdog.limit) :
    ∃ m' g, pins.route m = .ok () m' ∧
      pins.Routed g m (regs.contents m) m' (regs.contents m') := by
  obtain ⟨⟨⟩, m', hroute, -⟩ := concludes_route hplaced m (hdevice ▸ hresponds) hreads
  obtain ⟨fuse, mode, hall⟩ := transacts_of_route hroute
  exact ⟨m', _, hroute, routed_of_transacts hplaced regs hdevice hall⟩

/-! ### Memory with write-protected registers

Plain memory, but for the protection register and the function registers, which take what is written
to them as described.
-/

/-- The registers in memory. -/
def stateOf (pins : Pins) (mem : Memory) : PinState where
  blocked := mem.load (pins.base + 0x3014) .word &&& 0x80 != 0
  writable := mem.load (pins.base + 0x3014) .word &&& 0x40 != 0
  mode g := (mem.load (pins.base + g.route.mode) .byte).toUInt8
  function g := mem.load (pins.base + g.route.function) .word
  fuse := mem.load (pins.fuses + 0x1178) .word

/-- What a write leaves at its address. -/
def kept (pins : Pins) (mem : Memory) (w : Width) (address : UInt64) (value : UInt32) : UInt32 :=
  if address = pins.base + 0x3014 then ((pins.stateOf mem).protect value).protection
  else if (address = pins.base + 0x458 ∨ address = pins.base + 0x4D8) ∧
      (pins.stateOf mem).writable = false then mem.load address w
  else value

theorem kept_protection (mem : Memory) (w : Width) (value : UInt32) :
    pins.kept mem w (pins.base + 0x3014) value = ((pins.stateOf mem).protect value).protection :=
  if_pos rfl

theorem kept_function (mem : Memory) (g : PinGroup) (value : UInt32) :
    pins.kept mem .word (pins.base + g.route.function) value =
      if (pins.stateOf mem).writable then value else (pins.stateOf mem).function g := by
  cases g <;> cases h : (pins.stateOf mem).writable <;>
    simp [kept, PinGroup.route, h] <;> rfl

theorem kept_mode (mem : Memory) (g : PinGroup) (value : UInt32) :
    pins.kept mem .byte (pins.base + g.route.mode) value = value := by
  cases g <;> simp [kept, PinGroup.route]

/-- Memory with a pin controller. -/
def protectedMemory (pins : Pins) : Device where
  onRead _ _ _ mem := some mem
  onWrite _ w address value mem := mem.put? address w (pins.kept mem w address value)

theorem responds_protectedMemory : (protectedMemory pins).Responds where
  read _ _ _ mem := ⟨mem, rfl⟩
  write _ _ _ _ _ hfits := ⟨_, if_pos hfits⟩

section Stores

variable (hplaced : pins.Placed) (mem : Memory) (value : UInt32)

include hplaced

theorem stateOf_store_protection (s : PinState) :
    pins.stateOf (mem.store (pins.base + 0x3014) (bytesOf 4 s.protection)) =
      { pins.stateOf mem with blocked := s.blocked, writable := s.writable } := by
  have hprotection := mem.load_store (pins.base + 0x3014) .word s.protection
  refine PinState.ext ?_ ?_ (funext fun g ↦ ?_) (funext fun g ↦ ?_) ?_
  · exact (congrArg (· &&& 0x80 != 0) hprotection).trans s.protection_and.1
  · exact (congrArg (· &&& 0x40 != 0) hprotection).trans s.protection_and.2
  · exact congrArg UInt32.toUInt8 <|
      mem.load_store_add .word _ pins.base (by cases g <;> decide)
  · exact mem.load_store_add .word _ pins.base (by cases g <;> decide)
  · exact mem.load_store_of_not_meets .word _ (hplaced.fuse_not_meets (by decide) (by decide))

theorem stateOf_store_function (g : PinGroup) :
    pins.stateOf (mem.store (pins.base + g.route.function) (bytesOf 4 value)) =
      { pins.stateOf mem with
        function := Function.update (pins.stateOf mem).function g value } := by
  have hprotection : (mem.store (pins.base + g.route.function) (bytesOf 4 value)).load
      (pins.base + 0x3014) .word = mem.load (pins.base + 0x3014) .word :=
    mem.load_store_add .word _ pins.base (by cases g <;> decide)
  refine PinState.ext ?_ ?_ (funext fun other ↦ ?_) (funext fun other ↦ ?_) ?_
  · exact congrArg (· &&& 0x80 != 0) hprotection
  · exact congrArg (· &&& 0x40 != 0) hprotection
  · exact congrArg UInt32.toUInt8 <|
      mem.load_store_add .word _ pins.base (by cases g <;> cases other <;> decide)
  · change _ = Function.update (pins.stateOf mem).function g value other
    by_cases hother : other = g
    · rw [hother, Function.update_self]
      exact mem.load_store _ .word value
    · rw [Function.update_of_ne hother]
      exact mem.load_store_add .word _ pins.base
        (PinGroup.accesses_not_meet other (Ne.symm hother) (.write .word _)
          (by simp [PinGroup.accesses])).2
  · exact mem.load_store_of_not_meets .word _
      (hplaced.fuse_not_meets (by decide) (by cases g <;> decide))

theorem stateOf_store_mode (g : PinGroup) :
    pins.stateOf (mem.store (pins.base + g.route.mode) (bytesOf 1 value)) =
      (pins.stateOf mem).setMode g value.toUInt8 := by
  have hprotection : (mem.store (pins.base + g.route.mode) (bytesOf 1 value)).load
      (pins.base + 0x3014) .word = mem.load (pins.base + 0x3014) .word :=
    mem.load_store_add .byte _ pins.base (by cases g <;> decide)
  refine PinState.ext ?_ ?_ (funext fun other ↦ ?_) (funext fun other ↦ ?_) ?_
  · exact congrArg (· &&& 0x80 != 0) hprotection
  · exact congrArg (· &&& 0x40 != 0) hprotection
  · change _ = Function.update (pins.stateOf mem).mode g value.toUInt8 other
    by_cases hother : other = g
    · rw [hother, Function.update_self, ← Width.toUInt8_truncate .byte value]
      exact congrArg UInt32.toUInt8 (mem.load_store _ .byte value)
    · rw [Function.update_of_ne hother]
      exact congrArg UInt32.toUInt8 <| mem.load_store_add .byte _ pins.base
        (PinGroup.accesses_not_meet other (Ne.symm hother) (.read .byte _)
          (by simp [PinGroup.accesses])).1
  · exact mem.load_store_add .byte _ pins.base (by cases g <;> cases other <;> decide)
  · exact mem.load_store_of_not_meets .byte _
      (hplaced.fuse_not_meets (by decide) (by cases g <;> decide))

end Stores

/-- Memory with a pin controller is one. -/
def protectedMemory.registers (hplaced : pins.Placed) :
    Registers (protectedMemory pins) pins.PinStep where
  view _ := pins.stateOf
  read h := by
    cases h
    refine ⟨nofun, nofun, nofun, fun g value hevent ↦ ?_, fun value hevent ↦ ?_⟩
    · obtain ⟨rfl, rfl, rfl⟩ := Event.busRead.inj hevent
      refine ⟨?_, rfl⟩
      simp only [stateOf, Memory.load_byte, UInt8.toUInt8_toUInt32]
    · obtain ⟨rfl, rfl, rfl⟩ := Event.busRead.inj hevent
      exact ⟨rfl, rfl⟩
  write {_ w address value mem mem'} h := by
    have hstored : mem' = mem.store address (bytesOf w.bytes (pins.kept mem w address value)) := by
      change mem.put? address w _ = some mem' at h
      unfold Memory.put? at h
      split at h
      · exact (Option.some.inj h).symm
      · cases h
    rw [hstored]
    refine ⟨fun _ hevent ↦ ?_, fun g _ hevent ↦ ?_, fun g _ hevent ↦ ?_, nofun, nofun⟩ <;>
      obtain ⟨rfl, rfl, rfl⟩ := Event.busWrite.inj hevent
    · rw [kept_protection]
      exact stateOf_store_protection hplaced mem _
    · rw [kept_function]
      refine (stateOf_store_function hplaced mem _ g).trans ?_
      unfold PinState.setFunction
      split
      · rfl
      · rw [Function.update_eq_self]
    · rw [kept_mode]
      exact stateOf_store_mode hplaced mem _ g

/-- A pin controller and fuses at their usual places. -/
def usualPins : Pins := ⟨0x11030000, 0x11860000⟩

theorem placed_usualPins : usualPins.Placed := ⟨by decide, by decide, by decide⟩

/-- A machine with that memory, whose function registers are locked. Low bits of the fuse word are
1, and other bits of it are set too. -/
def lockedBoard : Machine where
  memory := (((Memory.empty.store 0x11861178 [0xF1, 0x00, 0x20]).store 0x11033014 [0x80]).store
    0x11030458 [0x07]).store 0x11030216 [0x01]
  device := protectedMemory usualPins
  watchdog := ⟨2, 0, 0, 0⟩

/-- The console is routed to group 6 there. -/
theorem route_from_any_protection_locked :
    ∃ m', usualPins.route lockedBoard = .ok () m' ∧
      usualPins.Routed .six lockedBoard (usualPins.stateOf lockedBoard.memory) m'
        (usualPins.stateOf m'.memory) ∧
      (usualPins.stateOf lockedBoard.memory).blocked = true ∧
      m'.memory.load 0x11030458 .word = 0x00066000 ∧
      (m'.memory.load 0x11030216 .byte).toUInt8 = 0x19 := by
  obtain ⟨m', g, hroute, hrouted⟩ := route_from_any_protection usualPins placed_usualPins
    (protectedMemory.registers placed_usualPins) responds_protectedMemory lockedBoard rfl
    (by decide)
  have hfuse : (usualPins.stateOf lockedBoard.memory).fuse = 0x002000F1 := by cbv
  have hmode : (usualPins.stateOf lockedBoard.memory).mode .six = 0x01 := by cbv
  have hsix : g = .six := hrouted.selected.2 (congrArg (·.toNat % 16) hfuse)
  rw [hsix] at hrouted
  refine ⟨m', hroute, hrouted, by cbv, hrouted.function_eq, ?_⟩
  exact hrouted.mode_eq.trans (congrArg (· ||| 0x18) hmode)

end Pins

end BringUp.Board
