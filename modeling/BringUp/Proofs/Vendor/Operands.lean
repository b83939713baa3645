import BringUp.Proofs.Vendor.Control
import BringUp.Proofs.Vendor.Interference

/-!
# Operands

How many argument words a command looks at is listed apart from what the commands do
(`Command.arity`). The list is exact: a command does the same for all arguments that agree on that
many words (`Command.run_congr`), and no command would do with fewer (`Command.arity_le_iff`). A
control even takes its one word only for whether it is zero.

So whatever a caller left in its other argument registers does not show: neither in the result of a
call nor in the table, the register writes, the fences or the registers
(`undeclared_operands_ignored`).
-/

namespace BringUp.Vendor

open Firmware Pma

variable {command : Command} {args args' : Arguments}

/-! ### Words that count -/

theorem Arguments.first_eq_of_take (h : args.toList.take 1 = args'.toList.take 1) :
    args.first = args'.first :=
  (List.cons.inj h).1

theorem Arguments.eq_of_take (h : args.toList.take 4 = args'.toList.take 4) : args = args' := by
  obtain ⟨first, second, third, fourth⟩ := args
  simp only [toList, List.take_succ_cons, List.take_zero, List.cons.injEq, and_true] at h
  obtain ⟨rfl, rfl, rfl, rfl⟩ := h
  rfl

/-- The arguments are the same to the command: they agree on the words that it declares, or it
switches a control and they agree on which way. -/
def Command.Agree (command : Command) (args args' : Arguments) : Prop :=
  args.toList.take command.arity = args'.toList.take command.arity ∨
    ∃ control, command = .switch control ∧ (args.first = 0 ↔ args'.first = 0)

/-- **A command does the same for arguments that are the same to it.** -/
theorem Command.run_congr (h : command.Agree args args') (t : Table) :
    command.run t args = command.run t args' := by
  rcases h with h | ⟨control, rfl, hzero⟩
  · cases command with
    | readCsr csr => rfl
    | writeCsr csr => rw [run, run, Arguments.first_eq_of_take h]
    | switch control => rw [run, run, Arguments.first_eq_of_take h]
    | flushDataCache => rfl
    | assignEntry => rw [Arguments.eq_of_take h]
    | releaseEntry => rw [run, run, Arguments.first_eq_of_take h]
    | probeEntries => rfl
  · have hon : (args.first != 0) = (args'.first != 0) := by
      rw [bne, bne, Bool.eq_iff_iff]
      simpa using not_congr hzero
    rw [run, run, hon]

/-! ### No word too many -/

/-- A core with programmable attributes, every other register zero. -/
def blank : Machine :=
  { watchdog := ⟨1, 0, 0, 0⟩, csrs := CsrFile.zero.set .mmscCfg 0x40000000 }

theorem get_after_writeCsr (csr : Csr) (t : Table) (args : Arguments) (m : Machine) :
    (((Command.writeCsr csr).run t args).after m).csrs.get csr = args.first := by
  have hrun : Runs ((Command.writeCsr csr).run t args) m.csrs [.csrWrite csr args.first]
      (.ok (0, t)) := (runs_csrWrite _ _ _).bind_cons (runs_pure _ _)
  rw [after_of_ok hrun.apply]
  exact CsrFile.get_set_self _ _ _

theorem get_after_switch (control : Control) (t : Table) (args : Arguments) (m : Machine) :
    (((Command.switch control).run t args).after m).csrs.get control.register =
      control.turn (args.first != 0) (m.csrs.get control.register) := by
  obtain ⟨text, hswitch⟩ := control.runs_switch (args.first != 0) m.csrs
  have hrun : Runs ((Command.switch control).run t args) m.csrs
      (control.events (args.first != 0) m.csrs ++ [.log .debug text] ++ []) (.ok (0, t)) :=
    hswitch.bind (runs_pure _ _)
  rw [after_of_ok hrun.apply, Machine.csrs_perform, List.append_nil, CsrFile.replay_append]
  exact (control.get_replay_events _ _ _).trans (if_pos rfl)

/-- Which way a control is switched shows in its register. -/
theorem Control.turn_zero_ne (control : Control) : control.turn false 0 ≠ control.turn true 0 := by
  cases control <;> decide

theorem run_ne_of_endsWith {t : Table} {m : Machine}
    (h : (command.run t args).endsWith (fun _ _ ↦ true) m = true)
    (h' : (command.run t args').endsWith (fun _ _ ↦ true) m = false) :
    command.run t args ≠ command.run t args' := by
  intro heq
  rw [heq, h'] at h
  cases h

/-- **The last word that a command declares can make a difference.** -/
theorem Command.exists_run_ne (h : 0 < command.arity) :
    ∃ (t : Table) (args args' : Arguments),
      args.toList.take (command.arity - 1) = args'.toList.take (command.arity - 1) ∧
        command.run t args ≠ command.run t args' := by
  cases command with
  | readCsr csr => cases h
  | writeCsr csr =>
    refine ⟨.empty, ⟨0, 0, 0, 0⟩, ⟨1, 0, 0, 0⟩, rfl, fun heq ↦ ?_⟩
    have hvalue := congrArg (fun x ↦ (x.after blank).csrs.get csr) heq
    simp only [get_after_writeCsr] at hvalue
    exact absurd hvalue (by decide)
  | switch control =>
    refine ⟨.empty, ⟨0, 0, 0, 0⟩, ⟨1, 0, 0, 0⟩, rfl, fun heq ↦ ?_⟩
    have hword := congrArg (fun x ↦ (x.after (default : Machine)).csrs.get control.register) heq
    simp only [get_after_switch] at hword
    exact control.turn_zero_ne hword
  | flushDataCache => cases h
  | assignEntry =>
    -- an entry that does not exist
    exact ⟨.empty, ⟨0, 0, 0x1000, 0⟩, ⟨0, 0, 0x1000, 16⟩, rfl,
      run_ne_of_endsWith (m := blank) (by decide) (by decide)⟩
  | releaseEntry =>
    -- an owner that holds nothing
    exact ⟨⟨Table.empty.slots.set 0 (some ⟨0, 0, 0x1000⟩)⟩, ⟨0, 0, 0, 0⟩, ⟨1, 0, 0, 0⟩, rfl,
      run_ne_of_endsWith (m := blank) (by decide +kernel) (by decide +kernel)⟩
  | probeEntries => cases h

/-- **The number of words listed for a command is the least that decides what it does.** -/
theorem Command.arity_le_iff {n : Nat} : command.arity ≤ n ↔
    ∀ (t : Table) (args args' : Arguments), args.toList.take n = args'.toList.take n →
      command.run t args = command.run t args' := by
  -- words that agree are also fewer words that agree
  have htake {k l : Nat} (hkl : k ≤ l) {args args' : Arguments}
      (h : args.toList.take l = args'.toList.take l) :
      args.toList.take k = args'.toList.take k := by
    simpa only [List.take_take, Nat.min_eq_left hkl] using congrArg (List.take k) h
  constructor
  · exact fun hn t args args' h ↦ run_congr (.inl (htake hn h)) t
  · intro h
    refine Nat.le_of_not_lt fun hlt ↦ ?_
    obtain ⟨t, args, args', hagree, hne⟩ := exists_run_ne (Nat.zero_lt_of_lt hlt)
    exact hne (h t args args' (htake (Nat.le_sub_one_of_lt hlt) hagree))

/-! ### Calls -/

/-- Every call comes to a result, and nothing but the registers and the table decides which. -/
theorem Call.exists_runs_outcome (t : Table) (bank : CsrFile) (c : Call) :
    ∃ es r t', Runs (c.outcome t) bank es (.ok (r, t')) := by
  by_cases hu : c.Unsupported bank
  · obtain ⟨e, id, hserve, -⟩ := runs_serve_of_unsupported hu t
    exact ⟨_, _, _, runs_outcome_of_failure hserve⟩
  · by_cases hm : c.Malformed t bank
    · obtain ⟨es, what, hserve, -⟩ := runs_serve_of_malformed hm
      exact ⟨_, _, _, runs_outcome_of_failure hserve⟩
    · obtain ⟨es, value, t', hserve, -⟩ := serves_of_served hu hm
      exact ⟨_, _, _, runs_outcome_of_ok hserve⟩

/-- **A call depends on the operands that its command declares, and on nothing else in its
arguments.** On two machines with the same registers, calls of one function whose arguments agree
on the declared words get the same result, leave the same table, and do the same: the same register
accesses and fences in the same order, so that the registers are the same afterwards. To switch a
control it is enough that the first words are both zero or both not. -/
theorem undeclared_operands_ignored {function : UInt64} {command : Command}
    (hcommand : Command.ofId? function = some command) {args args' : Arguments}
    (hargs : command.Agree args args') (t : Table) {m m' : Machine} (hcsrs : m'.csrs = m.csrs) :
    ∃ r t' es, Call.outcome t ⟨extensionId, function, args⟩ m = .ok (r, t') (m.perform es) ∧
      Call.outcome t ⟨extensionId, function, args'⟩ m' = .ok (r, t') (m'.perform es) ∧
      (m.perform es).csrs = (m'.perform es).csrs := by
  have hsame : Call.outcome t ⟨extensionId, function, args'⟩ =
      Call.outcome t ⟨extensionId, function, args⟩ := by
    simp only [Call.outcome, serve_of_ofId? hcommand, Command.run_congr hargs]
  obtain ⟨es, r, t', hrun⟩ := Call.exists_runs_outcome t m.csrs ⟨extensionId, function, args⟩
  refine ⟨r, t', es, hrun.apply, ?_, ?_⟩
  · rw [hsame]
    exact hrun m' hcsrs
  · rw [Machine.csrs_perform, Machine.csrs_perform, hcsrs]

/-- A release with an address left over in the last words, and a data cache that one caller switches
on with 1 and another with a word whose low half is zero, on two machines with different pasts. -/
theorem undeclared_operands_ignored_leftovers :
    ∃ (t : Table) (m m' : Machine), (t.entryOf? 0x2000).isSome ∧ m.trace ≠ m'.trace ∧
      (∃ r t' es,
        Call.outcome t ⟨extensionId, 11, ⟨0x2000, 0, 0, 0⟩⟩ m = .ok (r, t') (m.perform es) ∧
        Call.outcome t ⟨extensionId, 11, ⟨0x2000, 0, 0x80000000, 5⟩⟩ m' =
          .ok (r, t') (m'.perform es) ∧
        (m.perform es).csrs = (m'.perform es).csrs) ∧
      ∃ r t' es,
        Call.outcome t ⟨extensionId, 5, ⟨1, 0, 0, 0⟩⟩ m = .ok (r, t') (m.perform es) ∧
        Call.outcome t ⟨extensionId, 5, ⟨0xFFFFFFFF00000000, 1, 0, 0⟩⟩ m' =
          .ok (r, t') (m'.perform es) ∧
        (m.perform es).csrs = (m'.perform es).csrs :=
  ⟨⟨Table.empty.slots.set 5 (some ⟨0x50000000, 0x2000, 0x1000⟩)⟩, blank,
    { blank with trace := #[.fence] }, by decide +kernel, by decide,
    undeclared_operands_ignored ofId?_release (.inl rfl) _ rfl,
    undeclared_operands_ignored (show Command.ofId? 5 = some (.switch .dcache) from rfl)
      (.inr ⟨.dcache, rfl, by decide⟩) _ rfl⟩

end BringUp.Vendor
