import BringUp.Proofs.Vendor.Steering

/-!
# The last call decides

Which call decides a bit of the two registers that controls are in. A call that succeeds rules on
all bits of a register, if it overwrites it, or on the bits of a control, if it switches one
(`Call.ruling?`); it leaves all other bits as they are, whether they have a name or not. So after
any calls a bit is as the last ruling on it says, or as it was (`decided_by_last_ruling`).

It follows that calls that switch different controls can change places, and that making one twice
in a row is as good as once. This holds of all registers, the cache command among them, and of the
table.
-/

namespace BringUp.Vendor

open Firmware Pma

/-! ### Rulings -/

namespace Call

/-- The word that the call writes over a register as a whole; none if it does no such thing. -/
def overwrite? (c : Call) (csr : Csr) : Option UInt64 :=
  if c.extension = extensionId then
    match c.function.toNat, csr with
    | 2, .mcacheCtl => some c.args.first
    | 3, .mmiscCtl => some c.args.first
    | _, _ => none
  else none

/-- The value that the call switches a bit to; none if it does not switch it. -/
def switched? (c : Call) (csr : Csr) (i : Nat) : Option Bool :=
  if c.extension = extensionId then
    match c.function.toNat, csr with
    | 4, .mcacheCtl => if i = 0 then some (c.args.first != 0) else none
    | 5, .mcacheCtl => if i = 1 then some (c.args.first != 0) else none
    | 6, .mcacheCtl => if i = 9 then some (c.args.first != 0) else none
    | 7, .mcacheCtl => if i = 10 then some (c.args.first != 0) else none
    | 8, .mmiscCtl => if i = 8 then some (c.args.first != 0) else none
    | 9, .mcacheCtl =>
      if i = 13 then some (c.args.first != 0) else if i = 14 then some false else none
    | _, _ => none
  else none

/-- The value that the call gives a bit, if it succeeds; none if it leaves the bit alone. -/
def ruling? (c : Call) (csr : Csr) (i : Nat) : Option Bool :=
  ((c.overwrite? csr).map fun word ↦ word.toBitVec.getLsbD i).or (c.switched? csr i)

/-- The call switches a control. -/
def IsToggle (c : Call) : Prop :=
  c.extension = extensionId ∧ 4 ≤ c.function.toNat ∧ c.function.toNat ≤ 9

end Call

/-- Something about the calls that succeeded, in order. -/
def ofSucceeded {α : Type} (f : Call → Option α) (log : List (Call × Reply)) : List α :=
  log.filterMap fun entry ↦ if entry.2.status = 0 then f entry.1 else none

/-- The rulings on a bit. -/
def rulings (csr : Csr) (i : Nat) : List (Call × Reply) → List Bool :=
  ofSucceeded fun c ↦ c.ruling? csr i

/-- The words written over a register as a whole. -/
def overwrites (csr : Csr) : List (Call × Reply) → List UInt64 :=
  ofSucceeded fun c ↦ c.overwrite? csr

/-- All bits of a register that have a name. -/
def named : Csr → UInt64
  | .mcacheCtl => CacheControl.table.all
  | .mmiscCtl => MiscControl.table.all
  | _ => 0

/-- The second list is the first with calls that switch different controls moved past each other. -/
inductive Reordered : List Call → List Call → Prop
  /-- No call is moved. -/
  | refl (calls : List Call) : Reordered calls calls
  /-- Two neighbours change places. -/
  | swap (front back : List Call) {a b : Call} (ha : a.IsToggle) (hb : b.IsToggle)
    (hne : a.function ≠ b.function) : Reordered (front ++ a :: b :: back) (front ++ b :: a :: back)
  /-- One change after another. -/
  | trans {xs ys zs : List Call} (h : Reordered xs ys) (h' : Reordered ys zs) : Reordered xs zs

/-! ### Function numbers -/

variable {t t' : Table} {bank bank' : CsrFile} {es : List Event} {c : Call} {reply : Reply}
  {control : Control} {csr : Csr} {i : Nat}

/-- Number of the function that switches a control. -/
def Control.function : Control → Fin 18
  | icache => 4
  | dcache => 5
  | iprefetch => 6
  | dprefetch => 7
  | nonBlocking => 8
  | writeAround => 9

namespace Call

theorem command?_eq_switch_iff :
    c.command? = some (.switch control) ↔
      c.extension = extensionId ∧ c.function.toNat = control.function.val := by
  have hid : Command.ofId? c.function = some (.switch control) ↔
      c.function.toNat = control.function.val :=
    Command.ofId?_eq_some_iff_of_unique (by cases control <;> decide)
  rw [command?, Option.ite_none_right_eq_some, hid]

theorem IsToggle.exists_control (h : c.IsToggle) :
    ∃ control, c.command? = some (.switch control) := by
  obtain ⟨hext, hlow, hhigh⟩ := h
  rw [command?_of_extension hext]
  generalize c.function.toNat = n at hlow hhigh
  match n with
  | 4 => exact ⟨.icache, rfl⟩
  | 5 => exact ⟨.dcache, rfl⟩
  | 6 => exact ⟨.iprefetch, rfl⟩
  | 7 => exact ⟨.dprefetch, rfl⟩
  | 8 => exact ⟨.nonBlocking, rfl⟩
  | 9 => exact ⟨.writeAround, rfl⟩

/-- What the call overwrites, by the command that it names. -/
theorem overwrite?_eq (c : Call) (csr : Csr) : c.overwrite? csr =
    match c.command? with
    | some (.writeCsr written) => if csr = written then some c.args.first else none
    | _ => none := by
  unfold overwrite?
  by_cases hext : c.extension = extensionId
  · rw [if_pos hext, command?_of_extension hext]
    generalize c.function.toNat = n
    match n with
    | 0 | 1 | 4 | 5 | 6 | 7 | 8 | 9 | 10 | 11 | 12 | 13 | 14 | 15 | 16 | 17 => rfl
    | 2 | 3 => cases csr <;> rfl
    | n + 18 => rfl
  · rw [if_neg hext, command?_of_extension_ne hext]

/-- What the call switches, by the command that it names. -/
theorem switched?_eq (c : Call) (csr : Csr) (i : Nat) : c.switched? csr i =
    match c.command? with
    | some (.switch control) =>
      if csr = control.register then control.ruling (c.args.first != 0) i else none
    | _ => none := by
  unfold switched?
  by_cases hext : c.extension = extensionId
  · rw [if_pos hext, command?_of_extension hext]
    generalize c.function.toNat = n
    match n with
    | 0 | 1 | 2 | 3 | 10 | 11 | 12 | 13 | 14 | 15 | 16 | 17 => rfl
    | 4 | 5 | 6 | 7 | 8 | 9 => cases csr <;> rfl
    | n + 18 => rfl
  · rw [if_neg hext, command?_of_extension_ne hext]

theorem ruling?_of_writeCsr {written : Csr} (h : c.command? = some (.writeCsr written)) :
    c.ruling? csr i = if csr = written then some (c.args.first.toBitVec.getLsbD i) else none := by
  rw [ruling?, overwrite?_eq, switched?_eq, h]
  by_cases hcsr : csr = written
  · simp [hcsr]
  · simp [hcsr]

theorem ruling?_of_switch (h : c.command? = some (.switch control)) :
    c.ruling? csr i =
      if csr = control.register then control.ruling (c.args.first != 0) i else none := by
  rw [ruling?, overwrite?_eq, switched?_eq, h]
  exact Option.none_or

theorem ruling?_of_not_steers (h : ∀ command ∈ c.command?, command.steers = false) :
    c.ruling? csr i = none := by
  rw [ruling?, overwrite?_eq, switched?_eq]
  cases hcommand : c.command? with
  | none => rfl
  | some command =>
    have hsteers := h command hcommand
    cases command with
    | writeCsr => cases hsteers
    | switch => cases hsteers
    | _ => rfl

/-- Calls of different functions switch different controls. -/
theorem control_ne {a b : Call} {control control' : Control}
    (ha : a.command? = some (.switch control)) (hb : b.command? = some (.switch control'))
    (hne : a.function ≠ b.function) : control ≠ control' := by
  rintro rfl
  exact hne (UInt64.toNat_inj.1
    ((command?_eq_switch_iff.1 ha).2.trans (command?_eq_switch_iff.1 hb).2.symm))

end Call

/-! ### One call -/

/-- The register is one that controls are in. -/
abbrev Steered (csr : Csr) : Prop :=
  csr = .mcacheCtl ∨ csr = .mmiscCtl

/-- What switching a control leaves of the registers. -/
def Control.leaves (control : Control) (on : Bool) (bank : CsrFile) : CsrFile :=
  fun csr ↦ control.leave on (bank.get csr) csr

theorem replay_switch (control : Control) (on : Bool) (text : String) (bank : CsrFile) :
    bank.replay (control.events on bank ++ [.log .debug text]) = control.leaves on bank := by
  rw [CsrFile.replay_append]
  exact funext fun csr ↦ control.get_replay_events on bank csr

/-- **A call that succeeds gives bits the values that it rules, and keeps all others.** One that
fails keeps them all. -/
theorem Steering.getLsbD_replay (h : Steering t bank c es reply t') (hcsr : Steered csr)
    (hi : i < 64) : ((bank.replay es).get csr).toBitVec.getLsbD i =
      (if reply.status = 0 then c.ruling? csr i else none).getD
        ((bank.get csr).toBitVec.getLsbD i) := by
  cases h with
  | @overwrite written hcommand =>
    rw [if_pos rfl, Call.ruling?_of_writeCsr hcommand]
    show ((bank.set written c.args.first).get csr).toBitVec.getLsbD i = _
    rw [CsrFile.get_set]
    split <;> rfl
  | @switch control hcommand text =>
    have hne : csr ≠ .mcctlCommand := by
      rintro rfl
      exact hcsr.elim nofun nofun
    rw [if_pos rfl, Call.ruling?_of_switch hcommand, replay_switch]
    show (control.leave _ (bank.get csr) csr).toBitVec.getLsbD i = _
    by_cases hown : csr = control.register
    · rw [Control.leave, if_pos hown, if_pos hown]
      exact control.getLsbD_turn _ _ hi
    · rw [Control.leave, if_neg hown, if_neg hown, if_neg fun h ↦ hne h.1]
      rfl
  | aside hcommand hes =>
    rw [get_replay_of_sparesControls hcsr hes, Call.ruling?_of_not_steers hcommand, ite_self]
    rfl

/-- A call that switches a control leaves the table alone, and of the registers what switching the
control leaves. -/
theorem Steering.of_switch (h : Steering t bank c es reply t')
    (hc : c.command? = some (.switch control)) :
    t' = t ∧ bank.replay es = control.leaves (c.args.first != 0) bank := by
  cases h with
  | overwrite hcommand =>
    rw [hc] at hcommand
    cases hcommand
  | switch hcommand text =>
    rw [hc] at hcommand
    cases hcommand
    exact ⟨rfl, replay_switch _ _ _ _⟩
  | aside hcommand =>
    cases hcommand _ hc

/-! ### Several calls -/

/-- Calls with their replies, answered one after the other from a table and a bank to those they
leave. -/
inductive Answered : Table → CsrFile → List (Call × Reply) → Table → CsrFile → Prop
  /-- There was no call. -/
  | nil (t : Table) (bank : CsrFile) : Answered t bank [] t bank
  /-- A call was answered, and then the others. -/
  | cons {t t₁ t' : Table} {bank bank' : CsrFile} {c : Call} {reply : Reply} {es : List Event}
    {log : List (Call × Reply)} (hrun : Runs (c.answer t) bank es (.ok (reply, t₁)))
    (hsteering : Steering t bank c es reply t₁) (h : Answered t₁ (bank.replay es) log t' bank') :
    Answered t bank ((c, reply) :: log) t' bank'

variable {log : List (Call × Reply)} {calls xs ys : List Call}

theorem exists_answered (t : Table) (bank : CsrFile) (calls : List Call) :
    ∃ log t' bank', log.map Prod.fst = calls ∧ Answered t bank log t' bank' := by
  induction calls generalizing t bank with
  | nil => exact ⟨[], t, bank, rfl, .nil t bank⟩
  | cons c calls ih =>
    obtain ⟨es, reply, t₁, hrun, hsteering⟩ := runs_answer_steering t bank c
    obtain ⟨log, t', bank', hcalls, hlog⟩ := ih t₁ (bank.replay es)
    exact ⟨(c, reply) :: log, t', bank', by rw [List.map_cons, hcalls], .cons hrun hsteering hlog⟩

theorem Answered.exists_runs (h : Answered t bank log t' bank') :
    ∃ es, Runs (Call.answerAll t (log.map Prod.fst)) bank es (.ok (log.map Prod.snd, t')) ∧
      bank.replay es = bank' := by
  induction h with
  | nil t bank => exact ⟨[], runs_pure _ _, rfl⟩
  | @cons _ _ _ _ _ _ _ es _ hrun _ _ ih =>
    obtain ⟨fs, hruns, rfl⟩ := ih
    refine ⟨es ++ (fs ++ []), hrun.bind (hruns.bind (runs_pure _ _)), ?_⟩
    rw [List.append_nil, CsrFile.replay_append]

theorem Answered.answerAll_eq {m : Machine} (h : Answered t m.csrs log t' bank') :
    ∃ m', Call.answerAll t (log.map Prod.fst) m = .ok (log.map Prod.snd, t') m' ∧
      m'.csrs = bank' := by
  obtain ⟨es, hruns, rfl⟩ := h.exists_runs
  exact ⟨_, hruns.apply, rfl⟩

/-- The last of something is that of the first call, if no later one has any. -/
theorem getD_getLast?_ofSucceeded_cons {α : Type} (f : Call → Option α) (c : Call) (reply : Reply)
    (log : List (Call × Reply)) (a : α) :
    (ofSucceeded f ((c, reply) :: log)).getLast?.getD a =
      (ofSucceeded f log).getLast?.getD ((if reply.status = 0 then f c else none).getD a) := by
  rw [ofSucceeded, ofSucceeded, List.filterMap_cons]
  cases if reply.status = 0 then f c else none with
  | none => rfl
  | some b => rw [List.getLast?_cons, Option.getD_some, Option.getD_some]

/-- **A bit is as the last ruling on it says, or as it was.** -/
theorem Answered.getLsbD_eq (h : Answered t bank log t' bank') (hcsr : Steered csr) (hi : i < 64) :
    (bank'.get csr).toBitVec.getLsbD i =
      (rulings csr i log).getLast?.getD ((bank.get csr).toBitVec.getLsbD i) := by
  induction h with
  | nil => rfl
  | @cons _ _ _ _ _ c reply _ log _ hsteering _ ih =>
    rw [ih, hsteering.getLsbD_replay hcsr hi]
    exact (getD_getLast?_ofSucceeded_cons _ _ _ _ _).symm

/-! ### Bits without a name -/

/-- A control owns bits that have a name in its register. -/
theorem named_of_owner? (h : Control.owner? i = some control) :
    (named control.register).toBitVec.getLsbD i = true := by
  unfold Control.owner? at h
  split at h <;> cases h <;> decide

/-- On a bit without a name only calls rule that overwrite the register. -/
theorem Call.ruling?_of_not_named (c : Call) (h : (named csr).toBitVec.getLsbD i = false) :
    c.ruling? csr i = (c.overwrite? csr).map fun word ↦ word.toBitVec.getLsbD i := by
  have hswitched : c.switched? csr i = none := by
    rw [switched?_eq]
    split
    · next control _ =>
      by_cases hown : csr = control.register
      · rw [if_pos hown]
        cases hruling : control.ruling (c.args.first != 0) i with
        | none => rfl
        | some b =>
          rw [hown, named_of_owner? (Control.owner?_of_ruling hruling)] at h
          cases h
      · rw [if_neg hown]
    · rfl
  rw [ruling?, hswitched, Option.or_none]

theorem rulings_of_not_named (h : (named csr).toBitVec.getLsbD i = false) :
    rulings csr i log = (overwrites csr log).map fun word ↦ word.toBitVec.getLsbD i := by
  rw [rulings, overwrites, ofSucceeded, ofSucceeded, List.map_filterMap]
  refine congrArg (log.filterMap ·) (funext fun entry ↦ ?_)
  rw [Call.ruling?_of_not_named entry.1 h]
  split <;> rfl

/-- **Bits without a name are as the register was last overwritten, or as they were.** -/
theorem Answered.and_not_named_eq (h : Answered t bank log t' bank') (hcsr : Steered csr) :
    bank'.get csr &&& ~~~named csr =
      (overwrites csr log).getLast?.getD (bank.get csr) &&& ~~~named csr := by
  refine UInt64.toBitVec_inj.1 (BitVec.eq_of_getLsbD_eq fun i hi ↦ ?_)
  simp only [UInt64.toBitVec_and, UInt64.toBitVec_not, BitVec.getLsbD_and, BitVec.getLsbD_not]
  cases hnamed : (named csr).toBitVec.getLsbD i with
  | true => simp only [Bool.not_true, Bool.and_false]
  | false =>
    rw [h.getLsbD_eq hcsr hi, rulings_of_not_named hnamed, List.getLast?_map, Option.getD_map]

/-! ### Calls in another order -/

/-- Answering the calls leads from a table and a bank to those they leave. -/
def Leaves (t : Table) (bank : CsrFile) (calls : List Call) (t' : Table) (bank' : CsrFile) : Prop :=
  ∃ log, log.map Prod.fst = calls ∧ Answered t bank log t' bank'

theorem Leaves.answerAll_eq {m : Machine} (h : Leaves t m.csrs calls t' bank') :
    ∃ replies m', Call.answerAll t calls m = .ok (replies, t') m' ∧ m'.csrs = bank' := by
  obtain ⟨log, rfl, hlog⟩ := h
  obtain ⟨m', hrun, hcsrs⟩ := hlog.answerAll_eq
  exact ⟨_, m', hrun, hcsrs⟩

theorem leaves_append_iff : Leaves t bank (xs ++ ys) t' bank' ↔
    ∃ t₁ bank₁, Leaves t bank xs t₁ bank₁ ∧ Leaves t₁ bank₁ ys t' bank' := by
  induction xs generalizing t bank with
  | nil =>
    constructor
    · exact fun h ↦ ⟨t, bank, ⟨[], rfl, .nil t bank⟩, h⟩
    · rintro ⟨t₁, bank₁, ⟨log, hnil, hlog⟩, h⟩
      obtain rfl := List.map_eq_nil_iff.1 hnil
      cases hlog
      exact h
  | cons c xs ih =>
    constructor
    · rintro ⟨log, hcalls, hlog⟩
      cases hlog with
      | nil => cases hcalls
      | cons hrun hsteering hlog =>
        obtain ⟨rfl, hrest⟩ := List.cons.inj hcalls
        obtain ⟨t₁, bank₁, ⟨log₁, rfl, hlog₁⟩, hys⟩ := ih.1 ⟨_, hrest, hlog⟩
        exact ⟨t₁, bank₁, ⟨_ :: log₁, rfl, .cons hrun hsteering hlog₁⟩, hys⟩
    · rintro ⟨t₁, bank₁, ⟨log, hcalls, hlog⟩, hys⟩
      cases hlog with
      | nil => cases hcalls
      | cons hrun hsteering hlog =>
        obtain ⟨rfl, hrest⟩ := List.cons.inj hcalls
        obtain ⟨log', hlog', hanswered⟩ := ih.2 ⟨t₁, bank₁, ⟨_, hrest, hlog⟩, hys⟩
        exact ⟨_ :: log', by rw [List.map_cons, hlog']; rfl, .cons hrun hsteering hanswered⟩

/-- A call that switches a control does just that. -/
theorem leaves_cons_switch_iff (hc : c.command? = some (.switch control)) :
    Leaves t bank (c :: calls) t' bank' ↔
      Leaves t (control.leaves (c.args.first != 0) bank) calls t' bank' := by
  constructor
  · rintro ⟨log, hcalls, hlog⟩
    cases hlog with
    | nil => cases hcalls
    | cons hrun hsteering hlog =>
      obtain ⟨rfl, hrest⟩ := List.cons.inj hcalls
      obtain ⟨rfl, hbank⟩ := hsteering.of_switch hc
      exact ⟨_, hrest, hbank ▸ hlog⟩
  · rintro ⟨log, rfl, hlog⟩
    obtain ⟨text, hrun⟩ := Call.runs_answer_of_switch hc t bank
    exact ⟨(c, ⟨0, 0⟩) :: log, rfl, .cons hrun (.switch hc text) (replay_switch .. ▸ hlog)⟩

/-- **Calls that switch different controls can change places.** -/
theorem Leaves.reordered (h : Leaves t bank xs t' bank') (hreordered : Reordered xs ys) :
    Leaves t bank ys t' bank' := by
  induction hreordered with
  | refl => exact h
  | swap front back ha hb hne =>
    obtain ⟨control, ha⟩ := ha.exists_control
    obtain ⟨control', hb⟩ := hb.exists_control
    obtain ⟨t₁, bank₁, hfront, hrest⟩ := leaves_append_iff.1 h
    rw [leaves_cons_switch_iff ha, leaves_cons_switch_iff hb] at hrest
    refine leaves_append_iff.2 ⟨t₁, bank₁, hfront, ?_⟩
    rw [leaves_cons_switch_iff hb, leaves_cons_switch_iff ha]
    have hcomm : ∀ on on', control.leaves on (control'.leaves on' bank₁) =
        control'.leaves on' (control.leaves on bank₁) := fun on on' ↦
      funext fun csr ↦ Control.leave_comm _ (Call.control_ne ha hb hne) on on' csr
    rwa [hcomm]
  | trans _ _ ih ih' => exact ih' (ih h)

/-- **A call that switches a control may as well be made twice.** -/
theorem Leaves.repeated (h : Leaves t bank (xs ++ c :: ys) t' bank') (hc : c.IsToggle) :
    Leaves t bank (xs ++ c :: c :: ys) t' bank' := by
  obtain ⟨control, hc⟩ := hc.exists_control
  obtain ⟨t₁, bank₁, hfront, hrest⟩ := leaves_append_iff.1 h
  rw [leaves_cons_switch_iff hc] at hrest
  refine leaves_append_iff.2 ⟨t₁, bank₁, hfront, ?_⟩
  rw [leaves_cons_switch_iff hc, leaves_cons_switch_iff hc]
  have htwice : ∀ on, control.leaves on (control.leaves on bank₁) = control.leaves on bank₁ :=
    fun on ↦ funext fun csr ↦ control.leave_leave on _ csr
  rwa [htwice]

/-! ### The last call decides -/

/-- **Each bit of the two control registers is decided by the last call that succeeded and rules on
it.** Bits without a name are never lost: they are as the register was last overwritten as a whole,
or as they were. Calls that switch different controls can change places, and one that switches a
control can be repeated, without a difference to any register or to the table. -/
theorem decided_by_last_ruling (t : Table) (m : Machine) (calls : List Call) :
    ∃ (log : List (Call × Reply)) (t' : Table) (m' : Machine), log.map Prod.fst = calls ∧
      Call.answerAll t calls m = .ok (log.map Prod.snd, t') m' ∧
      (∀ csr ∈ [Csr.mcacheCtl, .mmiscCtl], ∀ i < 64,
        (m'.csrs.get csr).toBitVec.getLsbD i =
          (rulings csr i log).getLast?.getD ((m.csrs.get csr).toBitVec.getLsbD i)) ∧
      (∀ csr ∈ [Csr.mcacheCtl, .mmiscCtl], m'.csrs.get csr &&& ~~~named csr =
        (overwrites csr log).getLast?.getD (m.csrs.get csr) &&& ~~~named csr) ∧
      (∀ calls₂, Reordered calls calls₂ → ∃ replies₂ m₂,
        Call.answerAll t calls₂ m = .ok (replies₂, t') m₂ ∧ m₂.csrs = m'.csrs) ∧
      ∀ front c back, calls = front ++ c :: back → c.IsToggle → ∃ replies₂ m₂,
        Call.answerAll t (front ++ c :: c :: back) m = .ok (replies₂, t') m₂ ∧
        m₂.csrs = m'.csrs := by
  obtain ⟨log, t', bank', rfl, hlog⟩ := exists_answered t m.csrs calls
  obtain ⟨m', hrun, rfl⟩ := hlog.answerAll_eq
  have hsteered : ∀ csr ∈ [Csr.mcacheCtl, .mmiscCtl], Steered csr := by simp [Steered]
  have hleaves : Leaves t m.csrs (log.map Prod.fst) t' m'.csrs := ⟨log, rfl, hlog⟩
  refine ⟨log, t', m', rfl, hrun, fun csr hcsr i hi ↦ hlog.getLsbD_eq (hsteered csr hcsr) hi,
    fun csr hcsr ↦ hlog.and_not_named_eq (hsteered csr hcsr), fun calls₂ hreordered ↦ ?_,
    fun front c back hcalls hc ↦ ?_⟩
  · exact (hleaves.reordered hreordered).answerAll_eq
  · rw [hcalls] at hleaves
    exact (hleaves.repeated hc).answerAll_eq

/-- The highest bit has no name. It was set with the whole word, and turning the data cache off
afterwards keeps it. -/
example : (Call.answerAll .empty
    [⟨extensionId, 2, { first := 0x8000000000000003 }⟩, ⟨extensionId, 5, {}⟩]).endsWith
    (fun _ m ↦ m.csrs.get .mcacheCtl == 0x8000000000000001)
    { watchdog := ⟨1, 0, 0, 0⟩ } = true := by
  decide +kernel

end BringUp.Vendor
