import BringUp.Proofs.Machine.Access

/-!
# Actions that end

What an action does, if it ends, says nothing about whether it ends. Here is the other half. A bus
access ends if the device responds to it and the watchdog allows for it, so an action that `Concludes
n` ends on every machine whose device responds and whose watchdog allows for `n` reads. The bounds
add up along a sequence.

A register can be accessed at all only if it ends inside the address space (`Block.Fits`).
-/

namespace BringUp

/-- The device responds to every access that ends inside the address space. -/
structure Device.Responds (d : Device) : Prop where
  /-- To reads. -/
  read : ∀ trace address earlier mem, ∃ mem', d.onRead trace address earlier mem = some mem'
  /-- To writes. -/
  write : ∀ trace w address value mem, w.fits address = true →
    ∃ mem', d.onWrite trace w address value mem = some mem'

theorem Device.responds_plain : Device.plain.Responds where
  read _ _ _ mem := ⟨mem, rfl⟩
  write _ _ _ _ _ hfits := ⟨_, if_pos hfits⟩

namespace Firmware

variable {α β : Type} {x : Firmware α} {f : α → Firmware β} {n k : Nat}

/-- If the device responds and the watchdog allows for `n` bus reads, the action ends after at most
so many. -/
def Concludes (n : Nat) (x : Firmware α) : Prop :=
  ∀ m, m.device.Responds → m.watchdog.busReads + n ≤ m.watchdog.limit →
    ∃ a m', x m = .ok a m' ∧ m'.device = m.device ∧
      m'.watchdog.busReads ≤ m.watchdog.busReads + n ∧ m'.watchdog.limit = m.watchdog.limit

namespace Concludes

theorem bind (hx : Concludes n x) (hf : ∀ a, Concludes k (f a)) : Concludes (n + k) (x >>= f) := by
  intro m hresponds hreads
  obtain ⟨a, m₁, hfirst, hdevice, hcount, hlimit⟩ := hx m hresponds (by omega)
  obtain ⟨b, m', hrest, hdevice', hcount', hlimit'⟩ :=
    hf a m₁ (hdevice ▸ hresponds) (by omega)
  exact ⟨b, m', (bind_of_ok hfirst).trans hrest, hdevice'.trans hdevice, by omega,
    hlimit'.trans hlimit⟩

theorem mono (hx : Concludes n x) (h : n ≤ k) : Concludes k x := by
  intro m hresponds hreads
  obtain ⟨a, m', hrun, hdevice, hcount, hlimit⟩ := hx m hresponds (by omega)
  exact ⟨a, m', hrun, hdevice, by omega, hlimit⟩

theorem ite {c : Prop} [Decidable c] {x' : Firmware α} (hx : Concludes n x)
    (hx' : Concludes n x') : Concludes n (if c then x else x') := by
  split
  · exact hx
  · exact hx'

theorem pure (a : α) : Concludes 0 (pure a : Firmware α) :=
  fun m _ _ ↦ ⟨a, m, rfl, rfl, Nat.le_refl _, rfl⟩

theorem log (level : Level) (text : String) : Concludes 0 (log level text) :=
  fun _ _ _ ↦ ⟨(), _, rfl, rfl, Nat.le_refl _, rfl⟩

end Concludes

end Firmware

/-! ### Register blocks -/

namespace Block

open Firmware

variable {b : Block} {offset : UInt64} {m : Machine}

/-- The register ends inside the address space. -/
def Fits (b : Block) (offset : UInt64) : Prop :=
  b.base.toNat + offset.toNat + (b.layout.width offset).bytes ≤ UInt64.size

namespace Fits

variable (h : b.Fits offset)
include h

theorem add_lt : b.base.toNat + offset.toNat < UInt64.size :=
  Nat.lt_of_lt_of_le (Nat.lt_add_of_pos_right (b.layout.width offset).bytes_pos) h

theorem fits : (b.layout.width offset).fits (b.base + offset) = true := by
  have hadd : (b.base + offset).toNat = b.base.toNat + offset.toNat := by
    rw [UInt64.toNat_add]
    exact Nat.mod_eq_of_lt h.add_lt
  rw [Width.fits_iff, hadd]
  exact h

/-- A write ends if the device responds, whatever the watchdog says. -/
theorem write_ends (value : UInt32) (hresponds : m.device.Responds) :
    ∃ m', (b.write offset value : Firmware Unit) m = .ok () m' ∧ m'.device = m.device ∧
      m'.watchdog = m.watchdog := by
  obtain ⟨memory, hmemory⟩ := hresponds.write m.trace _ (b.base + offset)
    ((b.layout.width offset).truncate value) m.memory h.fits
  rw [write, address, exactAdd_of_lt h.add_lt]
  exact ⟨_, busWrite_eq_ok_iff.2 ⟨h.fits, _, hmemory, rfl⟩, rfl, rfl⟩

theorem concludes_write (value : UInt32) :
    Concludes 0 (b.write offset value : Firmware Unit) := by
  intro m hresponds _
  obtain ⟨m', hrun, hdevice, hwatchdog⟩ := h.write_ends value hresponds
  exact ⟨(), m', hrun, hdevice, Nat.le_of_eq (congrArg Watchdog.busReads hwatchdog),
    congrArg Watchdog.limit hwatchdog⟩

theorem concludes_read : Concludes 1 (b.read offset : Firmware UInt32) := by
  intro m hresponds hreads
  obtain ⟨memory, hmemory⟩ := hresponds.read m.trace (b.base + offset)
    (m.readsOf (b.base + offset)) m.memory
  rw [read, address, exactAdd_of_lt h.add_lt]
  exact ⟨_, _, busRead_eq_ok_iff.2 ⟨hreads, h.fits, _, hmemory, rfl, rfl⟩, rfl, Nat.le_refl _, rfl⟩

theorem concludes_writeInTurn (first second : UInt32) :
    Concludes 0 (b.writeInTurn offset first second : Firmware Unit) :=
  .bind (h.concludes_write first) fun _ ↦ h.concludes_write second

theorem concludes_update (clear set : UInt32) :
    Concludes 1 (b.update offset clear set : Firmware Unit) :=
  .bind h.concludes_read fun _ ↦ h.concludes_write _

end Fits

end Block

end BringUp
