import BringUp.Proofs.Board.Hooks

/-!
# Table and hardware on a running platform

Every call on a platform keeps the table of regions and the registers of the core in agreement, in
whatever way the call ends (`Hook.agrees_after`). The table is empty to begin with, so agreement
holds whenever the two configuration registers were zero then, after any number of calls of any
kind (`regions_agree`).

Only three calls reach the table at all: assigning an entry, releasing one, and finishing a cold
boot. For all others it is enough that they write no register that the agreement depends on.
-/

namespace BringUp.Board

open Firmware Pma

/-- What stays within a footprint spares the entries. -/
theorem spares_of_within {e : Event} {footprint : List Access} (h : e.Within footprint) :
    Spares e :=
  spares_of_csrWrite?_eq_none h.csrWrite?_eq_none

/-- An action on behalf of a platform that keeps table and hardware in agreement. -/
def KeepsAgreement (pl : Platform) (x : Firmware Platform) : Prop :=
  ∀ m : Machine, pl.regions.Agrees m.csrs →
    (pl.settle x m).1.regions.Agrees (pl.settle x m).2.csrs

variable {pl : Platform} {x : Firmware Platform}

/-- An action that spares the entries and leaves the table alone. -/
theorem KeepsAgreement.of_emits (hx : Emits Spares x)
    (hregions : ∀ m pl' m', x m = .ok pl' m' → pl'.regions = pl.regions) :
    KeepsAgreement pl x := by
  intro m h
  rcases hrun : x m with ⟨pl', m'⟩ | ⟨s, m'⟩
  · obtain ⟨es, hes, hspares⟩ := hx.of_ok hrun
    rw [Platform.settle_of_ok hrun, hregions m pl' m' hrun, hes.csrs_eq]
    exact h.replay hspares
  · obtain ⟨es, hes, hspares⟩ := hx.of_error hrun
    rw [Platform.settle_of_error hrun, hes.csrs_eq]
    exact h.replay hspares

/-- An action before it that spares the entries does not matter. -/
theorem KeepsAgreement.bind {α : Type} {y : Firmware α} {f : α → Firmware Platform}
    (hy : Emits Spares y) (hf : ∀ a, KeepsAgreement pl (f a)) : KeepsAgreement pl (y >>= f) := by
  intro m h
  rcases hrun : y m with ⟨a, m'⟩ | ⟨s, m'⟩
  · obtain ⟨es, hes, hspares⟩ := hy.of_ok hrun
    rw [Platform.settle, bind_of_ok hrun]
    exact hf a m' (hes.csrs_eq ▸ h.replay hspares)
  · obtain ⟨es, hes, hspares⟩ := hy.of_error hrun
    rw [Platform.settle_of_error (bind_of_error hrun), hes.csrs_eq]
    exact h.replay hspares

/-- An action decided by the registers, that ends. -/
theorem KeepsAgreement.of_runs
    (hx : ∀ bank, ∃ es pl', Runs x bank es (.ok pl') ∧
      (pl.regions.Agrees bank → pl'.regions.Agrees (bank.replay es))) : KeepsAgreement pl x := by
  intro m h
  obtain ⟨es, pl', hrun, hagrees⟩ := hx m.csrs
  rw [Platform.settle_of_ok hrun.apply]
  exact hagrees h

/-! ### The calls -/

theorem keepsAgreement_openConsoleAt (base clock : UInt64) (baud : UInt32) :
    KeepsAgreement pl (pl.openConsoleAt base clock baud) :=
  .of_emits (Platform.emits_openConsoleAt (fun _ ↦ spares_of_within) (fun _ ↦ spares_of_within)
    fun _ ↦ spares_of_csrWrite?_eq_none rfl) fun _ _ _ ↦ Platform.regions_of_openConsoleAt

theorem keepsAgreement_status (hx : KeepsAgreement pl x) :
    KeepsAgreement pl (return (← pl.status x).2) := by
  intro m h
  rw [Platform.settle_status]
  exact hx m h

theorem keepsAgreement_finishBoot (cold : Bool) : KeepsAgreement pl (pl.finishBoot cold) := by
  refine .bind (Vendor.completes_enableCaches.emits.mono fun _ h ↦ h.spares) fun _ ↦ ?_
  refine .bind (SecondLevelCache.emits_enable fun _ ↦ spares_of_within) fun _ ↦ ?_
  cases cold with
  | false =>
    refine .of_runs fun bank ↦ ?_
    exact ⟨_, _, (runs_pure _ _).bind ((runs_log _ _ _).bind (runs_pure _ _)), fun h ↦ h⟩
  | true =>
    -- the caches spare the entries, clearing them is one of the operations on the table
    refine .of_runs fun bank ↦ ?_
    refine ⟨_, _, (Table.runs_clear bank).bind ((runs_log _ _ _).bind (runs_pure _ _)), fun h ↦ ?_⟩
    exact h.clear.replay_append fun _ ↦ spares_of_mem_log

theorem keepsAgreement_call (c : Vendor.Call) :
    KeepsAgreement pl (return (← pl.call c.extension c.function c.args).2) := by
  refine .of_runs fun bank ↦ ?_
  obtain ⟨es, reply, t', hrun, heffect, -⟩ := Vendor.runs_answer pl.regions bank c
  refine ⟨es ++ [], _, (Platform.runs_call hrun).bind (runs_pure _ _), fun h ↦ ?_⟩
  rw [List.append_nil]
  exact heffect.agrees h

/-- **Every call keeps table and hardware in agreement, however it ends.** -/
theorem Hook.keepsAgreement (hook : Hook) (pl : Platform) : KeepsAgreement pl (hook.run pl) := by
  cases hook with
  | beginBoot cold =>
    refine .bind ((Platform.emits_beginBoot cold).mono fun _ h ↦ h.spares) fun _ ↦ ?_
    refine .of_runs fun bank ↦ ?_
    exact ⟨_, _, runs_pure _ _, fun h ↦ h⟩
  | openConsole => exact keepsAgreement_openConsoleAt _ _ _
  | openConsoleStatus => exact keepsAgreement_status (keepsAgreement_openConsoleAt _ _ _)
  | openConsoleAt base clock baud => exact keepsAgreement_openConsoleAt _ _ _
  | openConsoleAtStatus base clock baud =>
    exact keepsAgreement_status (keepsAgreement_openConsoleAt _ _ _)
  | finishBoot cold => exact keepsAgreement_finishBoot cold
  | call c => exact keepsAgreement_call c

/-! ### Runs -/

theorem agrees_of_reachable {settings : Settings} {bank : CsrFile}
    (h₀ : bank.get (.pmaCfg 0) = 0) (h₂ : bank.get (.pmaCfg 2) = 0) {m : Machine}
    (h : Reachable settings bank pl m) : pl.regions.Agrees m.csrs := by
  induction h with
  | start hm =>
    rw [hm]
    exact Table.agrees_empty h₀ h₂
  | elsewhere _ hcsrs ih =>
    rw [hcsrs]
    exact ih
  | call _ hook hafter ih =>
    have hkeeps := hook.keepsAgreement _ _ ih
    rw [hafter] at hkeeps
    exact hkeeps

/-- **Table and hardware always agree.** Over a bank whose two configuration registers are zero,
after any calls on a fresh platform: the configuration byte of every entry tells whether its slot
holds a region, and a region that an entry holds is a page or a larger power of two, aligned to its
size, and encoded in the address register. -/
theorem regions_agree {settings : Settings} {bank : CsrFile} (h₀ : bank.get (.pmaCfg 0) = 0)
    (h₂ : bank.get (.pmaCfg 2) = 0) {m : Machine} (h : Reachable settings bank pl m)
    (e : Fin 16) :
    match pl.regions.get? (UInt64.ofNat e) with
    | none => m.csrs.configByte e = 0x00
    | some r => m.csrs.configByte e = 0x0F ∧ r.size.toNat.isPowerOfTwo ∧ 4096 ≤ r.size.toNat ∧
        r.size.toNat ∣ r.pa.toNat ∧
        m.csrs.pmaAddress e = (r.pa >>> 2) ||| ((r.size >>> 3) - 1) := by
  have hreflects : Reflects m.csrs e (pl.regions.get? (UInt64.ofNat e)) :=
    (agrees_of_reachable h₀ h₂ h).reflects_get? e
  cases hs : pl.regions.get? (UInt64.ofNat e) with
  | none =>
    rw [hs] at hreflects
    exact hreflects
  | some r =>
    rw [hs] at hreflects
    obtain ⟨hconfig, haddress, hpow, hpage, hdvd⟩ := hreflects
    exact ⟨hconfig, hpow, hpage, hdvd, haddress⟩

/-- Two pages at entry 9, asked for on a core with programmable attributes. -/
theorem regions_agree_two_pages :
    ∃ pl m, Reachable {} (CsrFile.zero.set .mmscCfg 0x40000000) pl m ∧
      pl.regions.get? 9 = some ⟨0x40000000, 0x1000, 0x2000⟩ ∧
      m.csrs.configByte (9 : Fin 16) = 0x0F ∧ m.csrs.pmaAddress (9 : Fin 16) = 0x100003FF := by
  let m : Machine :=
    { watchdog := ⟨1, 0, 0, 0⟩, csrs := CsrFile.zero.set .mmscCfg 0x40000000 }
  let hook : Hook := .call ⟨Vendor.extensionId, 10, ⟨0x40000000, 0x1000, 0x2000, 9⟩⟩
  let pl : Platform := { settings := {} }
  have hreach : Reachable {} (CsrFile.zero.set .mmscCfg 0x40000000) (pl.settle (hook.run pl) m).1
      (pl.settle (hook.run pl) m).2 := .call (.start rfl) hook rfl
  have hslot : (pl.settle (hook.run pl) m).1.regions.get? (UInt64.ofNat (9 : Fin 16)) =
      some ⟨0x40000000, 0x1000, 0x2000⟩ := by decide +kernel
  have hagree := regions_agree rfl rfl hreach 9
  rw [hslot] at hagree
  exact ⟨_, _, hreach, hslot, hagree.1, hagree.2.2.2.2⟩

end BringUp.Board
