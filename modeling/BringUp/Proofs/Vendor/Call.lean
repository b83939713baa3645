import BringUp.Proofs.Vendor.Command

/-!
# Outcomes of vendor calls

A call has one of three outcomes, decided by the register bank and the table before anything is
written: nothing is bound to it (`Call.Unsupported`), its operands are malformed (`Call.Malformed`),
or it is served. The first two are refusals. A refusal leaves table, registers and fences alone, so
calls made after it cannot tell that it was made (`refusal_classified`).

A call that is served has one of three effects (`Effect`): it assigns an entry, which happens exactly
to requests that pass every check (`Call.Granted`), it releases one, or it leaves the table and the
entries alone. Each of them keeps table and hardware in agreement (`Effect.agrees`).
-/

namespace BringUp.Vendor

open Firmware Pma

/-! ### Calls -/

/-- A call into a vendor extension. -/
structure Call where
  /-- Extension number. -/
  extension : UInt64
  /-- Function number. -/
  function : UInt64
  /-- Argument words. -/
  args : Arguments
  deriving Repr, DecidableEq, Inhabited

namespace Call

/-- A request for an entry. -/
def assign (args : Arguments) : Call :=
  ⟨extensionId, 10, args⟩

/-- A request to release the entry of an owner. -/
def release (args : Arguments) : Call :=
  ⟨extensionId, 11, args⟩

/-- Answers the call. -/
def answer (t : Table) (c : Call) : Firmware (Reply × Table) :=
  Vendor.answer t c.extension c.function c.args

/-- Answers calls in order. Gives the replies and the table after the last one. -/
def answerAll (t : Table) : List Call → Firmware (List Reply × Table)
  | [] => return ([], t)
  | c :: calls => do
    let (reply, t) ← c.answer t
    let (replies, t) ← answerAll t calls
    return (reply :: replies, t)

/-- Nothing is bound to the call on a core with these registers: another extension, a function
number beyond the last one, or an entry asked of a core without programmable attributes. -/
def Unsupported (bank : CsrFile) (c : Call) : Prop :=
  c.extension ≠ extensionId ∨ 18 ≤ c.function.toNat ∨
    c.function = 10 ∧ bank.programmable = false

/-- An operand of the call is malformed: an entry is asked for with an entry number, a size or a
place that does not fit or while it is in use, or one is released on behalf of nobody. -/
def Malformed (t : Table) (bank : CsrFile) (c : Call) : Prop :=
  c.extension = extensionId ∧
    (c.function = 10 ∧ bank.programmable = true ∧
        (16 ≤ c.args.fourth.toNat ∨ ¬ c.args.third.toNat.isPowerOfTwo ∨
          c.args.third.toNat < 4096 ∨ ¬ c.args.third.toNat ∣ c.args.first.toNat ∨
          (t.get? c.args.fourth).isSome) ∨
      c.function = 11 ∧
        ∀ (i : Fin entries) (r : Region), t.slots.get i = some r → r.va ≠ c.args.first)

/-- The call asks for an entry and passes every check. -/
structure Granted (t : Table) (bank : CsrFile) (c : Call) : Prop where
  /-- The extension is the one that is served. -/
  extension_eq : c.extension = extensionId
  /-- The function is the one that assigns an entry. -/
  function_eq : c.function = 10
  /-- The core has programmable attributes. -/
  programmable : bank.programmable = true
  /-- The table accepts the request. -/
  accepts : t.Accepts c.args.first c.args.third c.args.fourth

/-- The region that the call asks for. -/
def region (c : Call) : Region :=
  ⟨c.args.first, c.args.second, c.args.third⟩

/-- The event neither accesses the bus, nor writes a register, nor synchronises instruction
fetch. -/
structure Inert (e : Event) : Prop where
  /-- No register is written. -/
  csrWrite?_eq_none : e.csrWrite? = none
  /-- Instruction fetch is not synchronised. -/
  ne_fence : e ≠ .fence
  /-- The bus is left alone. -/
  isBus_eq : e.isBus = false

end Call

variable {t : Table} {bank : CsrFile} {es : List Event} {c : Call}

/-! ### Requests that the table does not accept -/

theorem not_accepts_iff {pa size entry : UInt64} :
    ¬ t.Accepts pa size entry ↔ 16 ≤ entry.toNat ∨ ¬ size.toNat.isPowerOfTwo ∨
      size.toNat < 4096 ∨ ¬ size.toNat ∣ pa.toNat ∨ (t.get? entry).isSome := by
  constructor
  · intro h
    refine Classical.byContradiction fun hno ↦ h ?_
    simp only [not_or, Nat.not_le, Nat.not_lt, Classical.not_not, Bool.not_eq_true,
      Option.isSome_eq_false_iff, Option.isNone_iff_eq_none] at hno
    obtain ⟨hentry, hpow, hpage, hdvd, hfree⟩ := hno
    exact ⟨hentry, hpow, hpage, hdvd, hfree⟩
  · rintro h ⟨hentry, hpow, hpage, hdvd, hfree⟩
    have hlt : entry.toNat < 16 := hentry
    rcases h with h | h | h | h | h
    · omega
    · exact h hpow
    · omega
    · exact h hdvd
    · rw [hfree] at h
      cases h

/-! ### Refusals -/

theorem serve_of_ofId? {command : Command} {function : UInt64}
    (h : Command.ofId? function = some command) (t : Table) (args : Arguments) :
    serve t extensionId function args = command.run t args := by
  rw [serve, if_pos rfl, perform, h]

theorem runs_answer_of_failure {cause : Failure}
    (h : Runs (serve t c.extension c.function c.args) bank es (.error (.failure cause))) :
    Runs (c.answer t) bank es (.ok (⟨cause.status, 0⟩, t)) := by
  rw [← es.append_nil]
  exact h.attempt_failure.bind (runs_pure _ _)

theorem runs_answer_of_ok {value : UInt64} {t' : Table}
    (h : Runs (serve t c.extension c.function c.args) bank es (.ok (value, t'))) :
    Runs (c.answer t) bank es (.ok (⟨Status.success, value⟩, t')) := by
  rw [← es.append_nil]
  exact h.attempt_ok.bind (runs_pure _ _)

theorem inert_log (level : Level) (text : String) : Call.Inert (.log level text) :=
  ⟨rfl, nofun, rfl⟩

theorem inert_csrRead (csr : Csr) (value : UInt64) : Call.Inert (.csrRead csr value) :=
  ⟨rfl, nofun, rfl⟩

/-- A call to which nothing is bound is refused before anything is written. -/
theorem runs_serve_of_unsupported (h : c.Unsupported bank) (t : Table) :
    ∃ e id, Runs (serve t c.extension c.function c.args) bank [e]
      (.error (.failure (.unsupported id))) ∧ Call.Inert e := by
  by_cases hext : c.extension = extensionId
  · rw [serve, if_pos hext]
    by_cases hlt : 18 ≤ c.function.toNat
    · rw [perform, Command.ofId?_eq_none_iff.2 hlt]
      exact ⟨_, _, (runs_log _ _ _).bind_cons (runs_fail _ _), inert_log _ _⟩
    · obtain ⟨hfun, hprog⟩ := (h.resolve_left fun hne ↦ hne hext).resolve_left hlt
      rw [perform, Command.ofId?_eq_some_assignEntry_iff.2 hfun]
      have hassign := t.runs_assign_of_not_programmable hprog
        c.args.first c.args.second c.args.third c.args.fourth
      exact ⟨_, _, hassign.bind_error, inert_csrRead _ _⟩
  · rw [serve, if_neg hext]
    exact ⟨_, _, (runs_log _ _ _).bind_cons (runs_fail _ _), inert_log _ _⟩

/-- A call with a malformed operand is refused before anything is written. -/
theorem runs_serve_of_malformed (h : c.Malformed t bank) :
    ∃ es what, Runs (serve t c.extension c.function c.args) bank es
      (.error (.failure (.badOperand what))) ∧ ∀ e ∈ es, Call.Inert e := by
  rcases h with ⟨hext, ⟨hfun, hprog, hargs⟩ | ⟨hfun, howner⟩⟩
  · rw [hext, serve_of_ofId? (Command.ofId?_eq_some_assignEntry_iff.2 hfun)]
    obtain ⟨what, hassign⟩ :=
      t.runs_assign_of_not_accepts hprog (not_accepts_iff.2 hargs) c.args.second
    exact ⟨_, what, hassign.bind_error, by simpa using inert_csrRead _ _⟩
  · rw [hext, serve_of_ofId? (Command.ofId?_eq_some_releaseEntry_iff.2 hfun)]
    have hrelease := t.runs_release_of_none (t.entryOf?_eq_none_iff.2 howner) bank
    exact ⟨[], _, hrelease.bind_error, by simp⟩

/-! ### Effects -/

/-- What a call does to the table: it leaves it alone, assigns an entry or releases one. With each
come the events. -/
inductive Effect (t : Table) (bank : CsrFile) (c : Call) : List Event → Table → Prop
  /-- The table is left alone, and no entry is written. -/
  | aside {es : List Event} (hgrant : ¬ c.Granted t bank) (hes : ∀ e ∈ es, Aside e) :
    Effect t bank c es t
  /-- The entry that the call asks for is assigned. -/
  | assign (hgrant : c.Granted t bank) (text : String) :
    Effect t bank c
      (.csrRead .mmscCfg (bank.get .mmscCfg) ::
        (Table.assignEvents bank c.region c.args.fourth ++ [.log .debug text]))
      ⟨t.slots.set c.args.fourth.toNat (some c.region) hgrant.accepts.entry_lt⟩
  /-- The lowest entry of the owner is released. -/
  | release (hgrant : ¬ c.Granted t bank) (i : Fin entries) (text : String) :
    Effect t bank c (Table.releaseEvents bank i.val.toUInt64 ++ [.log .debug text])
      ⟨t.slots.set i none i.isLt⟩

/-- Every effect keeps table and hardware in agreement. -/
theorem Effect.agrees {t' : Table} (h : Effect t bank c es t') (ht : t.Agrees bank) :
    t'.Agrees (bank.replay es) := by
  cases h with
  | aside _ hes => exact ht.replay fun e he ↦ (hes e he).spares
  | assign hgrant text =>
    exact (ht.assign hgrant.programmable hgrant.accepts).replay_append fun _ ↦ spares_of_mem_log
  | release _ i text => exact (ht.release i).replay_append fun _ ↦ spares_of_mem_log

/-- No effect accesses the bus. -/
theorem Effect.isBus_eq {t' : Table} (h : Effect t bank c es t') : ∀ e ∈ es, e.isBus = false := by
  have hconfig : ∀ entry config, ∀ e ∈ configEvents bank entry config, e.isBus = false := by
    simp [configEvents, Event.isBus]
  cases h with
  | aside _ hes => exact fun e he ↦ (hes e he).isBus_eq
  | assign hgrant text =>
    exact List.forall_mem_cons.2 ⟨rfl, List.forall_mem_append.2
      ⟨List.forall_mem_cons.2 ⟨rfl, hconfig _ _⟩, List.forall_mem_singleton.2 rfl⟩⟩
  | release _ i text =>
    exact List.forall_mem_append.2 ⟨List.forall_mem_append.2
      ⟨hconfig _ _, List.forall_mem_singleton.2 rfl⟩, List.forall_mem_singleton.2 rfl⟩

theorem Call.not_granted_of_function_ne (h : c.function ≠ 10) : ¬ c.Granted t bank :=
  fun hgrant ↦ h hgrant.function_eq

/-- A refusal is no grant, and leaves the table alone. -/
theorem effect_of_inert (hgrant : ¬ c.Granted t bank) (hes : ∀ e ∈ es, Call.Inert e) :
    Effect t bank c es t :=
  .aside hgrant fun e he ↦
    ⟨spares_of_csrWrite?_eq_none (hes e he).csrWrite?_eq_none, (hes e he).isBus_eq⟩

theorem Call.not_granted_of_unsupported (h : c.Unsupported bank) : ¬ c.Granted t bank := by
  rintro ⟨hext, hfun, hprog, -⟩
  rcases h with h | h | ⟨-, h⟩
  · exact h hext
  · rw [hfun] at h
    exact absurd h (by decide)
  · rw [hprog] at h
    cases h

theorem Call.not_granted_of_malformed (h : c.Malformed t bank) : ¬ c.Granted t bank := by
  rintro ⟨-, hfun, -, haccepts⟩
  rcases h with ⟨-, ⟨-, -, hargs⟩ | ⟨hfun', -⟩⟩
  · exact not_accepts_iff.2 hargs haccepts
  · rw [hfun] at hfun'
    cases hfun'

/-! ### Service -/

/-- The call is served, to one of the effects. -/
def Serves (t : Table) (bank : CsrFile) (c : Call) : Prop :=
  ∃ es value t', Runs (serve t c.extension c.function c.args) bank es (.ok (value, t')) ∧
    Effect t bank c es t'

/-- A command beside the table leaves it alone. -/
theorem serves_of_not_changesTable (hext : c.extension = extensionId) {command : Command}
    (hcommand : Command.ofId? c.function = some command)
    (hchange : command.changesTable = false) (t : Table) (bank : CsrFile) : Serves t bank c := by
  have hmem := Command.mem_all_of_ofId? hcommand
  obtain ⟨value, es, hrun, hes⟩ := Command.runs_of_not_changesTable hmem hchange t c.args bank
  have hfun : c.function ≠ 10 := by
    intro hfun
    rw [Command.ofId?_eq_some_assignEntry_iff.2 hfun] at hcommand
    cases hcommand
    cases hchange
  rw [Serves, hext, serve_of_ofId? hcommand]
  exact ⟨es, value, t, hrun, .aside (Call.not_granted_of_function_ne hfun) hes⟩

theorem serves_of_granted (hgrant : c.Granted t bank) : Serves t bank c := by
  rw [Serves, hgrant.extension_eq,
    serve_of_ofId? (Command.ofId?_eq_some_assignEntry_iff.2 hgrant.function_eq)]
  obtain ⟨text, hassign⟩ :=
    t.runs_assign_of_accepts hgrant.programmable hgrant.accepts c.args.second
  refine ⟨_, _, _, hassign.bind (runs_pure _ _), ?_⟩
  rw [List.append_nil]
  exact .assign hgrant text

theorem serves_of_entryOf? (hext : c.extension = extensionId) (hfun : c.function = 11)
    {i : Fin entries} (hi : t.entryOf? c.args.first = some i) (bank : CsrFile) :
    Serves t bank c := by
  rw [Serves, hext, serve_of_ofId? (Command.ofId?_eq_some_releaseEntry_iff.2 hfun)]
  obtain ⟨text, hrelease⟩ := t.runs_release_of_some hi bank
  refine ⟨_, _, _, hrelease.bind (runs_pure _ _), ?_⟩
  rw [List.append_nil]
  exact .release (Call.not_granted_of_function_ne (by rw [hfun]; decide)) i text

/-- A call for an entry that is not refused passes every check. -/
theorem granted_of_served (hu : ¬ c.Unsupported bank) (hm : ¬ c.Malformed t bank)
    (hext : c.extension = extensionId) (hfun : c.function = 10) : c.Granted t bank := by
  have hprog : bank.programmable = true := by
    rw [← Bool.not_eq_false]
    exact fun hfalse ↦ hu (.inr (.inr ⟨hfun, hfalse⟩))
  -- a request that the table does not accept would be malformed
  refine ⟨hext, hfun, hprog, Classical.byContradiction fun hna ↦ ?_⟩
  exact hm ⟨hext, .inl ⟨hfun, hprog, not_accepts_iff.1 hna⟩⟩

/-- A call names a command unless nothing is bound to it. -/
theorem command_of_not_unsupported (hu : ¬ c.Unsupported bank) :
    c.extension = extensionId ∧ ∃ command, Command.ofId? c.function = some command := by
  obtain ⟨hext, hrest⟩ := not_or.1 hu
  refine ⟨Classical.not_not.1 hext, Option.ne_none_iff_exists'.1 fun hnone ↦ ?_⟩
  exact (not_or.1 hrest).1 (Command.ofId?_eq_none_iff.1 hnone)

/-- **A call that is not refused is served.** -/
theorem serves_of_served (hu : ¬ c.Unsupported bank) (hm : ¬ c.Malformed t bank) :
    Serves t bank c := by
  obtain ⟨hext, command, hcommand⟩ := command_of_not_unsupported hu
  cases hchange : command.changesTable with
  | false => exact serves_of_not_changesTable hext hcommand hchange t bank
  | true =>
    rcases Command.eq_of_changesTable hchange with rfl | rfl
    · have hfun := Command.ofId?_eq_some_assignEntry_iff.1 hcommand
      exact serves_of_granted (granted_of_served hu hm hext hfun)
    · have hfun := Command.ofId?_eq_some_releaseEntry_iff.1 hcommand
      obtain ⟨i, hi⟩ : ∃ i, t.entryOf? c.args.first = some i := by
        refine Option.ne_none_iff_exists'.1 fun hnone ↦ hm ⟨hext, .inr ⟨hfun, ?_⟩⟩
        exact t.entryOf?_eq_none_iff.1 hnone
      exact serves_of_entryOf? hext hfun hi bank

/-! ### Answers -/

/-- Every call is answered, to one of the effects. A call for an entry is told success if it passed
every check. -/
theorem runs_answer (t : Table) (bank : CsrFile) (c : Call) :
    ∃ es reply t', Runs (c.answer t) bank es (.ok (reply, t')) ∧ Effect t bank c es t' ∧
      (c.extension = extensionId → c.function = 10 →
        (reply.status = Status.success ↔ c.Granted t bank)) := by
  by_cases hu : c.Unsupported bank
  · obtain ⟨e, id, hserve, he⟩ := runs_serve_of_unsupported hu t
    have hgrant : ¬ c.Granted t bank := Call.not_granted_of_unsupported hu
    exact ⟨_, _, _, runs_answer_of_failure hserve,
      effect_of_inert hgrant (List.forall_mem_singleton.2 he),
      fun _ _ ↦ iff_of_false (show (-2 : Int) ≠ 0 by decide) hgrant⟩
  · by_cases hm : c.Malformed t bank
    · obtain ⟨es, what, hserve, hes⟩ := runs_serve_of_malformed hm
      have hgrant : ¬ c.Granted t bank := Call.not_granted_of_malformed hm
      exact ⟨_, _, _, runs_answer_of_failure hserve, effect_of_inert hgrant hes,
        fun _ _ ↦ iff_of_false (show (-3 : Int) ≠ 0 by decide) hgrant⟩
    · obtain ⟨es, value, t', hserve, heffect⟩ := serves_of_served hu hm
      exact ⟨_, _, _, runs_answer_of_ok hserve, heffect,
        fun hext hfun ↦ iff_of_true rfl (granted_of_served hu hm hext hfun)⟩

/-- Calls are all answered, and nothing but the registers decides how. -/
theorem runs_answerAll (calls : List Call) (t : Table) (bank : CsrFile) :
    ∃ es replies t', Runs (Call.answerAll t calls) bank es (.ok (replies, t')) := by
  induction calls generalizing t bank with
  | nil => exact ⟨[], [], t, runs_pure _ _⟩
  | cons c calls ih =>
    obtain ⟨es, reply, t', hanswer, -, -⟩ := runs_answer t bank c
    obtain ⟨fs, replies, t'', hcalls⟩ := ih t' (bank.replay es)
    exact ⟨_, _, _, hanswer.bind (hcalls.bind (runs_pure _ _))⟩

/-- A refusal leaves table and registers as they were, and later calls cannot tell. -/
structure LeavesNoTrace (t : Table) (m : Machine) (t' : Table) (m' : Machine) : Prop where
  /-- The table is as it was. -/
  table_eq : t' = t
  /-- Every register is as it was. -/
  csrs_eq : m'.csrs = m.csrs
  /-- No register was written, and no fence executed. -/
  inert : ∃ es, m'.trace.toList = m.trace.toList ++ es ∧
    ∀ e ∈ es, e.csrWrite? = none ∧ e ≠ .fence
  /-- Whatever is called afterwards is answered as if the refused call had not been made. -/
  later : ∀ calls, ∃ replies t₂ m₁ m₂, Call.answerAll t' calls m' = .ok (replies, t₂) m₁ ∧
    Call.answerAll t calls m = .ok (replies, t₂) m₂ ∧ m₁.csrs = m₂.csrs

theorem leavesNoTrace_perform {es : List Event} (hes : ∀ e ∈ es, Call.Inert e) (t : Table)
    (m : Machine) : LeavesNoTrace t m t (m.perform es) where
  table_eq := rfl
  csrs_eq := CsrFile.replay_of_no_csrWrite (fun e he ↦ (hes e he).csrWrite?_eq_none) _
  inert := ⟨es, (m.leads_perform es).trace_eq, fun e he ↦
    ⟨(hes e he).csrWrite?_eq_none, (hes e he).ne_fence⟩⟩
  later calls := by
    obtain ⟨fs, replies, t₂, hrun⟩ := runs_answerAll calls t m.csrs
    have hcsrs : (m.perform es).csrs = m.csrs :=
      CsrFile.replay_of_no_csrWrite (fun e he ↦ (hes e he).csrWrite?_eq_none) _
    refine ⟨replies, t₂, _, _, hrun _ hcsrs, hrun m rfl, ?_⟩
    show (m.perform es).csrs.replay fs = m.csrs.replay fs
    rw [hcsrs]

theorem Call.not_malformed_of_unsupported (h : c.Unsupported bank) : ¬ c.Malformed t bank := by
  rintro ⟨hext, ⟨hfun, hprog, -⟩ | ⟨hfun, -⟩⟩
  · rcases h with h | h | ⟨-, h⟩
    · exact h hext
    · rw [hfun] at h
      exact absurd h (by decide)
    · rw [hprog] at h
      cases h
  · rcases h with h | h | ⟨h, -⟩
    · exact h hext
    · rw [hfun] at h
      exact absurd h (by decide)
    · rw [hfun] at h
      cases h

/-- **Every call is answered, a refusal is classified exactly, and it changes nothing.** The status
is one of three, each decided by the call, the table and the registers as they are. -/
theorem refusal_classified (t : Table) (m : Machine) (c : Call) :
    ∃ reply t' m', c.answer t m = .ok (reply, t') m' ∧
      (reply.status = -2 ↔ c.Unsupported m.csrs) ∧
      (reply.status = -3 ↔ c.Malformed t m.csrs) ∧
      (reply.status = 0 ∨ reply.status = -2 ∨ reply.status = -3) ∧
      (reply.status ≠ 0 → reply.value = 0 ∧ LeavesNoTrace t m t' m') := by
  by_cases hu : c.Unsupported m.csrs
  · obtain ⟨e, id, hserve, he⟩ := runs_serve_of_unsupported hu t
    have hm : ¬ c.Malformed t m.csrs := Call.not_malformed_of_unsupported hu
    refine ⟨⟨-2, 0⟩, t, _, (runs_answer_of_failure hserve).apply, ?_, ?_, ?_, fun _ ↦ ⟨rfl, ?_⟩⟩
    · exact iff_of_true rfl hu
    · exact iff_of_false (by decide) hm
    · exact .inr (.inl rfl)
    · exact leavesNoTrace_perform (by simpa using he) t m
  · by_cases hm : c.Malformed t m.csrs
    · obtain ⟨es, what, hserve, hes⟩ := runs_serve_of_malformed hm
      refine ⟨⟨-3, 0⟩, t, _, (runs_answer_of_failure hserve).apply, ?_, ?_, ?_, fun _ ↦ ⟨rfl, ?_⟩⟩
      · exact iff_of_false (by decide) hu
      · exact iff_of_true rfl hm
      · exact .inr (.inr rfl)
      · exact leavesNoTrace_perform hes t m
    · obtain ⟨es, value, t', hserve, -⟩ := serves_of_served hu hm
      refine ⟨⟨0, value⟩, t', _, (runs_answer_of_ok hserve).apply, ?_, ?_, ?_, fun h ↦ ?_⟩
      · exact iff_of_false (show (0 : Int) ≠ -2 by decide) hu
      · exact iff_of_false (show (0 : Int) ≠ -3 by decide) hm
      · exact .inl rfl
      · exact absurd rfl h

/-- An entry asked for at a place that is no multiple of the size: refused, and nothing changed. -/
theorem refusal_classified_misaligned :
    ∃ reply t' m',
      Call.answer .empty ⟨extensionId, 10, ⟨0x1800, 0, 4096, 3⟩⟩
          { watchdog := ⟨1, 0, 0, 0⟩, csrs := CsrFile.zero.set .mmscCfg 0x40000000 } =
        .ok (reply, t') m' ∧
      reply = ⟨-3, 0⟩ ∧ LeavesNoTrace .empty
        { watchdog := ⟨1, 0, 0, 0⟩, csrs := CsrFile.zero.set .mmscCfg 0x40000000 } t' m' := by
  have hm : Call.Malformed .empty (CsrFile.zero.set .mmscCfg 0x40000000)
      ⟨extensionId, 10, ⟨0x1800, 0, 4096, 3⟩⟩ :=
    ⟨rfl, .inl ⟨rfl, by decide, .inr (.inr (.inr (.inl (by decide))))⟩⟩
  obtain ⟨⟨status, value⟩, t', m', hanswer, -, hmalformed, -, hkeeps⟩ := refusal_classified .empty
    { watchdog := ⟨1, 0, 0, 0⟩, csrs := CsrFile.zero.set .mmscCfg 0x40000000 }
    ⟨extensionId, 10, ⟨0x1800, 0, 4096, 3⟩⟩
  have hstatus : status = -3 := hmalformed.2 hm
  subst hstatus
  obtain ⟨rfl, hleaves⟩ := hkeeps (show (-3 : Int) ≠ 0 by decide)
  exact ⟨_, t', m', hanswer, rfl, hleaves⟩

end BringUp.Vendor
