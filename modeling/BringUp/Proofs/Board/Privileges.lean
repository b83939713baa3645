import BringUp.Proofs.Board.Coverage
import BringUp.Proofs.Vendor.Privileges

/-!
# Registers that the platform writes

Over a whole session, whatever is asked of the platform and whatever the registers hold to begin
with, the firmware writes the registers that it may write (`writes_permitted`). So the registers that
describe the core keep their values, and a call that asks whether memory attributes are programmable
is told the same each time.

On a core without programmable attributes this rests on an invariant: no entry is ever assigned
there, so there is none to release, and clearing the table writes nothing (`idle_of_session`).
-/

namespace BringUp.Board

open Firmware Pma

variable {settings : Settings} {bank : CsrFile} {steps : List (Step Platform Request Answer)}
  {s : Step Platform Request Answer} {pl : Platform} {m m' : Machine} {e : Event}

/-! ### Requests -/

theorem permitted_of_bootWrite (h : BootWrite e) : Permitted true e := by
  cases e with
  | csrWrite csr value =>
    cases csr with
    | mcacheCtl => trivial
    | mmiscCtl => trivial
    | pmaCfg n => exact ⟨rfl, h.1⟩
    | _ => exact h.elim
  | _ => trivial

/-- **A request writes what may be written** on a core with programmable attributes. -/
theorem emits_make_permitted (pl : Platform) (r : Request) :
    Emits (Permitted true) (pl.make r) := by
  refine .settling ?_
  cases r with
  | output o =>
    exact Output.emits_act (fun _ _ _ he ↦ permitted_of_csrWrite?_eq_none he.csrWrite?_eq_none) o
  | hook hook =>
    by_cases hcall : ∃ c, hook = .call c
    · obtain ⟨c, rfl⟩ := hcall
      exact .bind (.bind (Vendor.Call.emits_permitted _ c) fun _ ↦ .pure _) fun _ ↦ .pure _
    · have hboot : Emits BootWrite (hook.act pl) := Hook.emits_bootWrite fun c hc ↦ hcall ⟨c, hc⟩
      exact hboot.mono fun _ ↦ permitted_of_bootWrite

theorem programmable_of_session (h : Session Platform.make { settings } bank steps pl m) :
    m.csrs.programmable = bank.programmable := by
  induction h with
  | start hm => rw [hm]
  | elsewhere _ hcsrs ih => rw [hcsrs, ih]
  | call _ hmade ih =>
    obtain ⟨hleads, hperm⟩ := hmade.leads (emits_make_permitted _ _)
    rw [hleads.csrs_eq, programmable_replay_of_permitted hperm, ih]

/-! ### Cores without programmable attributes -/

/-- On such a core a request spares the entries, and a table that holds no region holds none
afterwards. -/
theorem spares_of_idle (hmade : s.Made Platform.make m') (hprog : s.machine.csrs.programmable = false)
    (hidle : ∀ i, s.before.regions.slots.get i = none) :
    (∀ e ∈ s.events, Spares e) ∧ ∀ i, s.after.regions.slots.get i = none := by
  cases turn_of_made hmade with
  | aside _ hes hregions =>
    rw [hregions]
    exact ⟨hes, hidle⟩
  | @call c _ hrequest =>
    obtain ⟨es, reply, hanswer, hes⟩ := Vendor.runs_answer_of_idle hprog hidle c
    obtain ⟨rfl, -, hafter⟩ := eq_of_call hmade hrequest hanswer
    rw [hafter]
    exact ⟨hes, hidle⟩
  | @clear front back _ hevents hfront hback hregions =>
    have hperm := (hmade.leads (emits_make_permitted _ _)).2
    rw [hevents, List.append_assoc, List.forall_mem_append] at hperm
    have hclear : (s.machine.csrs.replay front).programmable = false := by
      rw [programmable_replay_of_permitted hperm.1, hprog]
    rw [hevents, hregions]
    refine ⟨List.forall_mem_append.2 ⟨List.forall_mem_append.2 ⟨hfront, ?_⟩, hback⟩, fun i ↦ ?_⟩
    · exact fun e ↦ Table.spares_of_mem_clearEvents hclear
    · exact Vector.getElem_replicate i.isLt

/-- **A core without programmable attributes never has an entry assigned**, and the registers of
entries are left alone. -/
theorem idle_of_session (hprog : bank.programmable = false)
    (h : Session Platform.make { settings } bank steps pl m) :
    (∀ i, pl.regions.slots.get i = none) ∧ ∀ e ∈ history steps, Spares e := by
  induction h with
  | start => exact ⟨fun i ↦ Vector.getElem_replicate i.isLt, by simp⟩
  | elsewhere _ _ ih => exact ih
  | call hbefore hmade ih =>
    obtain ⟨hidle, hes⟩ := ih
    have hcsrs := (programmable_of_session hbefore).trans hprog
    obtain ⟨hspares, hafter⟩ := spares_of_idle hmade hcsrs hidle
    refine ⟨hafter, ?_⟩
    rw [history_append, history_singleton]
    exact List.forall_mem_append.2 ⟨hes, hspares⟩

/-! ### Sessions -/

/-- Whatever is asked of a fresh platform writes what may be written. -/
theorem permitted_of_session (h : Session Platform.make { settings } bank steps pl m) :
    ∀ e ∈ history steps, Permitted bank.programmable e := by
  have hperm : ∀ e ∈ history steps, Permitted true e := by
    intro e he
    obtain ⟨s, hs, hmem⟩ := List.mem_flatMap.1 he
    obtain ⟨before, later, rfl⟩ := List.append_of_mem hs
    obtain ⟨m', -, hmade, -⟩ := h.made
    exact (hmade.leads (emits_make_permitted _ _)).2 e hmem
  cases hprog : bank.programmable with
  | true => exact hperm
  | false => exact fun e he ↦ (hperm e he).of_spares ((idle_of_session hprog h).2 e he) false

/-- **The firmware only ever writes registers that it may write.** Over any bank, let anything be
asked of a fresh platform, in any order. The two control registers may be written, the cache command
with one value, and the registers of memory attribute entries if the bank has the attributes
programmable. So the registers that describe the core hold what they held to begin with, at every
moment of every request, and whoever asks whether attributes are programmable is told by it. -/
theorem writes_permitted (h : Session Platform.make { settings } bank steps pl m) :
    (∀ e ∈ history steps, Permitted bank.programmable e) ∧
    m.csrs = bank.replay (history steps) ∧
    (∀ done, done <+: history steps → ∀ csr ∈ [.misa, .micmCfg, .mdcmCfg, .mmscCfg],
      (bank.replay done).get csr = bank.get csr) ∧
    ∀ s ∈ steps, ∀ args, s.request = .hook (.call ⟨Vendor.extensionId, 12, args⟩) →
      s.ending = .ok (.reply ⟨0, bank.programmable.toUInt64⟩) := by
  have hperm := permitted_of_session h
  refine ⟨hperm, h.csrs_eq emits_make, fun done hdone csr hcsr ↦ ?_, fun s hs args hrequest ↦ ?_⟩
  · exact get_replay_of_permitted hcsr (fun e he ↦ hperm e (hdone.subset he)) bank
  · obtain ⟨before, later, rfl⟩ := List.append_of_mem hs
    obtain ⟨m', hbefore, hmade, -⟩ := h.made
    have hanswer := Vendor.runs_answer_probe s.before.regions s.machine.csrs args
    rw [programmable_of_session hbefore] at hanswer
    exact (eq_of_call hmade hrequest hanswer).2.1

/-- A core with programmable attributes, where two pages get an entry, and then somebody asks. -/
theorem writes_permitted_two_pages :
    ∃ (steps : List (Step Platform Request Answer)) (s : Step Platform Request Answer)
      (pl : Platform) (m : Machine),
      Session Platform.make { settings := {} } pagesMachine.csrs (steps ++ [s]) pl m ∧
      .csrWrite (.pmaCfg 2) 0x0F00 ∈ history (steps ++ [s]) ∧
      (∀ e ∈ history (steps ++ [s]), Permitted true e) ∧
      s.request = .hook (.call ⟨Vendor.extensionId, 12, {}⟩) ∧ s.ending = .ok (.reply ⟨0, 1⟩) := by
  have hends : (Platform.make { settings := {} } pagesRequest).endsWith
      (fun _ m ↦ m.trace.toList.contains (.csrWrite (.pmaCfg 2) 0x0F00)) pagesMachine = true := by
    decide +kernel
  obtain ⟨⟨ending, pl₁⟩, m₁, hrun, htrace⟩ := endsWith_iff.1 hends
  let s₁ : Step Platform Request Answer :=
    ⟨pagesRequest, { settings := {} }, pagesMachine, ending, pl₁, m₁.trace.toList⟩
  have hfirst : Session Platform.make { settings := {} } pagesMachine.csrs ([] ++ [s₁]) pl₁ m₁ :=
    .call (s := s₁) (.start rfl) ⟨hrun, rfl⟩
  obtain ⟨es, hsession⟩ := hfirst.extend _ (emits_make _ _)
    (make_call (Vendor.runs_answer_probe pl₁.regions m₁.csrs {}))
  obtain ⟨hperm, -, -, hprobe⟩ := writes_permitted hsession
  refine ⟨_, _, _, _, hsession, ?_, hperm, rfl, hprobe _ (by simp) {} rfl⟩
  rw [history_append, history_append, history_singleton]
  exact List.mem_append_left _ (List.mem_append_right _ (List.contains_iff_mem.1 htrace))

end BringUp.Board
