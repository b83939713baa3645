import BringUp.Proofs.Pma.Edit
import BringUp.Proofs.Vendor.Release

/-!
# Requests on different entries

A request to assign an entry or to release one gets a result and makes at most one edit
(`Response`). What it gets depends on little: an assignment on the slot of its entry and on whether
attributes are programmable at all (`exists_response_assign`), a release on the entry that is found
for the owner (`exists_response_release`). An edit made by another request changes neither, as long
as the two are about different entries and owners, and such edits can be made in either order. So
two requests do not interfere: whichever comes first, both get the same results and leave the same
table and registers (`requests_commute`).
-/

namespace BringUp.Vendor

open Firmware Pma

/-! ### Results -/

/-- Carries out a call. Gives its value or the cause of its failure, and the table afterwards. A
call that fails leaves the table as it was. -/
def Call.outcome (t : Table) (c : Call) : Firmware (Except Failure UInt64 × Table) := do
  match ← attempt (serve t c.extension c.function c.args) with
  | .ok (value, t') => return (.ok value, t')
  | .error cause => return (.error cause, t)

/-- The reply to a call is its result put as a status and a value. -/
theorem Call.answer_eq_outcome (t : Table) (c : Call) :
    c.answer t = (fun out ↦ (Reply.of out.1, out.2)) <$> c.outcome t := by
  simp only [answer, Vendor.answer, outcome, map_eq_pure_bind, bind_assoc]
  refine congrArg _ (funext fun out ↦ ?_)
  rcases out with cause | ⟨value, t'⟩ <;> rfl

/-- A call that fails changes no table. -/
theorem Call.runs_outcome_of_failure {t : Table} {bank : CsrFile} {c : Call} {es : List Event}
    {cause : Failure}
    (h : Runs (serve t c.extension c.function c.args) bank es (.error (.failure cause))) :
    Runs (c.outcome t) bank es (.ok (.error cause, t)) := by
  rw [← es.append_nil]
  exact h.attempt_failure.bind (runs_pure _ _)

theorem Call.runs_outcome_of_ok {t t' : Table} {bank : CsrFile} {c : Call} {es : List Event}
    {value : UInt64} (h : Runs (serve t c.extension c.function c.args) bank es (.ok (value, t'))) :
    Runs (c.outcome t) bank es (.ok (.ok value, t')) := by
  rw [← es.append_nil]
  exact h.attempt_ok.bind (runs_pure _ _)

/-- What a request gets, and the edit that it makes. -/
structure Response where
  /-- Its value or the cause of its failure. -/
  result : Except Failure UInt64
  /-- The edit, if it makes one. -/
  edit? : Option Edit

namespace Response

/-- A failure, with nothing changed. -/
def refusal (cause : Failure) : Response :=
  ⟨.error cause, none⟩

/-- The table after the request. -/
def table (x : Response) (t : Table) : Table :=
  x.edit?.elim t (·.table t)

/-- The registers after the request. -/
def bank (x : Response) (bank : CsrFile) : CsrFile :=
  x.edit?.elim bank (·.bank bank)

variable {x y : Response} {t : Table}

theorem programmable_bank (x : Response) (bank : CsrFile) :
    (x.bank bank).programmable = bank.programmable := by
  obtain ⟨result, - | a⟩ := x
  · rfl
  · exact a.programmable_bank bank

theorem get?_table {entry : UInt64} (h : ∀ a ∈ x.edit?, entry.toNat ≠ a.entry.val) (t : Table) :
    (x.table t).get? entry = t.get? entry := by
  obtain ⟨result, - | a⟩ := x
  · rfl
  · exact a.get?_table_of_ne t (h a rfl)

theorem entryOf?_table {va : UInt64}
    (h : ∀ a ∈ x.edit?, (∀ r, t.slots.get a.entry = some r → r.va ≠ va) ∧
      ∀ r, a.slot = some r → r.va ≠ va) : (x.table t).entryOf? va = t.entryOf? va := by
  obtain ⟨result, - | a⟩ := x
  · rfl
  · exact a.entryOf?_table t (h a rfl).1 (h a rfl).2

theorem table_comm (h : ∀ a ∈ x.edit?, ∀ b ∈ y.edit?, a.entry ≠ b.entry) (t : Table) :
    y.table (x.table t) = x.table (y.table t) := by
  obtain ⟨result, - | a⟩ := x
  · rfl
  · obtain ⟨result', - | b⟩ := y
    · rfl
    · exact Edit.table_comm (h a rfl b rfl) t

theorem bank_comm (h : ∀ a ∈ x.edit?, ∀ b ∈ y.edit?, a.entry ≠ b.entry) (bank : CsrFile) :
    y.bank (x.bank bank) = x.bank (y.bank bank) := by
  obtain ⟨result, - | a⟩ := x
  · rfl
  · obtain ⟨result', - | b⟩ := y
    · rfl
    · exact Edit.bank_comm (h a rfl b rfl) bank

end Response

/-- From this table and these registers the call gets a response. -/
def Call.Gets (c : Call) (t : Table) (bank : CsrFile) (x : Response) : Prop :=
  ∃ es, Runs (c.outcome t) bank es (.ok (x.result, x.table t)) ∧ bank.replay es = x.bank bank

section Gets

variable {t : Table} {bank : CsrFile} {es : List Event} {function : UInt64} {command : Command}
  {args : Arguments} (hcommand : Command.ofId? function = some command)
include hcommand

/-- A command that fails before it writes anything gets a refusal. -/
theorem gets_of_failure {cause : Failure}
    (h : Runs (command.run t args) bank es (.error (.failure cause)))
    (hes : ∀ e ∈ es, e.csrWrite? = none) :
    Call.Gets ⟨extensionId, function, args⟩ t bank (.refusal cause) := by
  rw [← serve_of_ofId? hcommand] at h
  exact ⟨es, Call.runs_outcome_of_failure h, CsrFile.replay_of_no_csrWrite hes bank⟩

/-- A command that gives a value and changes an entry gets that. -/
theorem gets_of_ok {value : UInt64} {x : Edit}
    (h : Runs (command.run t args) bank es (.ok (value, x.table t)))
    (hes : bank.replay es = x.bank bank) :
    Call.Gets ⟨extensionId, function, args⟩ t bank ⟨.ok value, some x⟩ := by
  rw [← serve_of_ofId? hcommand] at h
  exact ⟨es, Call.runs_outcome_of_ok h, hes⟩

end Gets

/-! ### Assigning -/

theorem ofId?_assign : Command.ofId? 10 = some .assignEntry :=
  Command.ofId?_eq_some_assignEntry_iff.2 rfl

/-- An assignment that is accepted gives its entry the region. -/
theorem gets_assign {t : Table} {bank : CsrFile} {args : Arguments} (hp : bank.programmable = true)
    (ha : t.Accepts args.first args.third args.fourth) :
    Call.Gets (.assign args) t bank ⟨.ok args.first,
      some (.assign ⟨args.fourth.toNat, ha.entry_lt⟩ ⟨args.first, args.second, args.third⟩)⟩ := by
  obtain ⟨text, hassign⟩ := t.runs_assign_of_accepts hp ha args.second
  refine gets_of_ok ofId?_assign (hassign.bind (runs_pure _ _)) ?_
  -- reading the configuration word and logging change no register
  have hreplay := Edit.replay_assignEvents bank ⟨args.fourth.toNat, ha.entry_lt⟩
    ⟨args.first, args.second, args.third⟩
  rw [show args.fourth.toNat.toUInt64 = args.fourth from UInt64.ofNat_toNat] at hreplay
  rw [← hreplay, List.append_nil, CsrFile.replay_cons, CsrFile.replay_append]
  rfl

/-- **What an assignment gets is decided by the slot of its entry and by the core.** The only entry
that it edits is its own, which was free then. -/
theorem exists_response_assign (t : Table) (programmable : Bool) (args : Arguments) :
    ∃ x : Response,
      (∀ a ∈ x.edit?, a.entry.val = args.fourth.toNat ∧ t.slots.get a.entry = none ∧
        a.slot = some ⟨args.first, args.second, args.third⟩) ∧
      ∀ (t' : Table) (bank : CsrFile), t'.get? args.fourth = t.get? args.fourth →
        bank.programmable = programmable → Call.Gets (.assign args) t' bank x := by
  have hread (bank : CsrFile) : ∀ e ∈ [Event.csrRead .mmscCfg (bank.get .mmscCfg)],
      e.csrWrite? = none := List.forall_mem_singleton.2 rfl
  cases programmable with
  | false =>
    refine ⟨.refusal (.unsupported assignFunction), nofun, fun t' bank _ hp ↦ ?_⟩
    have hassign :=
      t'.runs_assign_of_not_programmable hp args.first args.second args.third args.fourth
    exact gets_of_failure ofId?_assign hassign.bind_error (hread bank)
  | true =>
    by_cases ha : t.Accepts args.first args.third args.fourth
    · refine ⟨⟨.ok args.first, some (.assign ⟨args.fourth.toNat, ha.entry_lt⟩
        ⟨args.first, args.second, args.third⟩)⟩, ?_, fun t' bank hslot hp ↦ ?_⟩
      · rintro a ⟨⟩
        exact ⟨rfl, (t.get?_eq_getElem ha.entry_lt).symm.trans ha.free, rfl⟩
      · exact gets_assign hp ((Table.accepts_congr hslot).2 ha)
    · obtain ⟨what, hassign⟩ := t.exists_refusal_of_not_accepts ha args.second
      refine ⟨.refusal (.badOperand what), nofun, fun t' bank hslot hp ↦ ?_⟩
      exact gets_of_failure ofId?_assign (hassign t' bank hslot hp).bind_error (hread bank)

/-! ### Releasing -/

theorem ofId?_release : Command.ofId? 11 = some .releaseEntry :=
  Command.ofId?_eq_some_releaseEntry_iff.2 rfl

/-- **What a release gets is decided by the entry found for the owner.** That entry is the only one
that it edits. -/
theorem exists_response_release (t : Table) (args : Arguments) :
    ∃ x : Response, (∀ a ∈ x.edit?, t.entryOf? args.first = some a.entry ∧ a.slot = none) ∧
      ∀ (t' : Table) (bank : CsrFile), t'.entryOf? args.first = t.entryOf? args.first →
        Call.Gets (.release args) t' bank x := by
  rcases hi : t.entryOf? args.first with - | i
  · refine ⟨.refusal (.badOperand "no pma region for this address"), nofun, fun t' bank hnone ↦ ?_⟩
    have hrelease := t'.runs_release_of_none hnone bank
    exact gets_of_failure ofId?_release hrelease.bind_error (List.forall_mem_nil _)
  · refine ⟨⟨.ok 0, some (.release i)⟩, ?_, fun t' bank hsome ↦ ?_⟩
    · rintro a ⟨⟩
      exact ⟨rfl, rfl⟩
    · obtain ⟨text, hrelease⟩ := t'.runs_release_of_some hsome bank
      refine gets_of_ok (x := .release i) ofId?_release (hrelease.bind (runs_pure _ _)) ?_
      rw [← Edit.replay_releaseEvents, List.append_nil, CsrFile.replay_append]
      rfl

/-! ### Two requests -/

/-- Two calls can be made in either order: each gets the same result, and table and registers are
the same afterwards. -/
def Commutes (t : Table) (m : Machine) (c c' : Call) : Prop :=
  ∃ r r' t₁ t₂ t' m₁ m₂ m₁' m₂',
    c.outcome t m = .ok (r, t₁) m₁ ∧ c'.outcome t₁ m₁ = .ok (r', t') m₁' ∧
    c'.outcome t m = .ok (r', t₂) m₂ ∧ c.outcome t₂ m₂ = .ok (r, t') m₂' ∧
    m₁'.csrs = m₂'.csrs

/-- Calls that get the same after one another as alone, and edit different entries. -/
theorem commutes_of_gets {t : Table} {m : Machine} {c c' : Call} {x y : Response}
    (hx : c.Gets t m.csrs x) (hx' : c.Gets (y.table t) (y.bank m.csrs) x)
    (hy : c'.Gets t m.csrs y) (hy' : c'.Gets (x.table t) (x.bank m.csrs) y)
    (hne : ∀ a ∈ x.edit?, ∀ b ∈ y.edit?, a.entry ≠ b.entry) : Commutes t m c c' := by
  obtain ⟨es, hes, hbank⟩ := hx
  obtain ⟨fs, hfs, hbank'⟩ := hy'
  obtain ⟨gs, hgs, hbank₂⟩ := hy
  obtain ⟨hs, hhs, hbank₂'⟩ := hx'
  rw [← Response.table_comm hne] at hhs
  refine ⟨x.result, y.result, x.table t, y.table t, y.table (x.table t), m.perform es,
    m.perform gs, _, _, hes.apply, hfs (m.perform es) hbank, hgs.apply, hhs (m.perform gs) hbank₂,
    ?_⟩
  show (m.csrs.replay es).replay fs = (m.csrs.replay gs).replay hs
  rw [hbank, hbank', hbank₂, hbank₂', Response.bank_comm hne]

/-- **Requests on different entries do not interfere**, whatever the table and the registers hold
and whether the requests succeed or fail: two assignments of different entries, two releases on
behalf of different owners, and an assignment for one owner and a release on behalf of another,
unless the release would give up the very entry that is asked for. -/
theorem requests_commute (t : Table) (m : Machine) (args args' : Arguments) :
    (args.fourth ≠ args'.fourth →
      Commutes t m (.assign args) (.assign args')) ∧
    (args.first ≠ args'.first →
      Commutes t m (.release args) (.release args')) ∧
    (args'.first ≠ args.second →
      (∀ i, t.entryOf? args'.first = some i → i.val ≠ args.fourth.toNat) →
      Commutes t m (.assign args) (.release args')) := by
  -- what a release gives up belongs to its owner
  have howner {va : UInt64} {i : Fin entries} (h : t.entryOf? va = some i) (r : Region)
      (hr : t.slots.get i = some r) : r.va = va := by
    obtain ⟨⟨r', hr', hva⟩, -⟩ := t.entryOf?_eq_some_iff.1 h
    rw [hr'] at hr
    rw [← Option.some.inj hr, hva]
  refine ⟨fun hne ↦ ?_, fun hne ↦ ?_, fun hne hfound ↦ ?_⟩
  · have hval : args.fourth.toNat ≠ args'.fourth.toNat := fun h ↦ hne (UInt64.toNat_inj.1 h)
    obtain ⟨x, hx, hgets⟩ := exists_response_assign t m.csrs.programmable args
    obtain ⟨y, hy, hgets'⟩ := exists_response_assign t m.csrs.programmable args'
    refine commutes_of_gets (hgets t _ rfl rfl) (hgets _ _ ?_ (y.programmable_bank _))
      (hgets' t _ rfl rfl) (hgets' _ _ ?_ (x.programmable_bank _)) fun a ha b hb heq ↦ ?_
    · exact Response.get?_table (fun b hb ↦ by rw [(hy b hb).1]; exact hval) t
    · exact Response.get?_table (fun a ha ↦ by rw [(hx a ha).1]; exact hval.symm) t
    · exact hval (by rw [← (hx a ha).1, ← (hy b hb).1, heq])
  · obtain ⟨x, hx, hgets⟩ := exists_response_release t args
    obtain ⟨y, hy, hgets'⟩ := exists_response_release t args'
    refine commutes_of_gets (hgets t _ rfl) (hgets _ _ ?_) (hgets' t _ rfl) (hgets' _ _ ?_)
      fun a ha b hb heq ↦ ?_
    · refine Response.entryOf?_table fun b hb ↦ ⟨fun r hr ↦ ?_, by simp [(hy b hb).2]⟩
      rw [howner (hy b hb).1 r hr]
      exact hne.symm
    · refine Response.entryOf?_table fun a ha ↦ ⟨fun r hr ↦ ?_, by simp [(hx a ha).2]⟩
      rw [howner (hx a ha).1 r hr]
      exact hne
    · obtain ⟨⟨r, hr, hva⟩, -⟩ := t.entryOf?_eq_some_iff.1 (hx a ha).1
      rw [heq] at hr
      exact hne (hva.symm.trans (howner (hy b hb).1 r hr))
  · obtain ⟨x, hx, hgets⟩ := exists_response_assign t m.csrs.programmable args
    obtain ⟨y, hy, hgets'⟩ := exists_response_release t args'
    refine commutes_of_gets (hgets t _ rfl rfl) (hgets _ _ ?_ (y.programmable_bank _))
      (hgets' t _ rfl) (hgets' _ _ ?_) fun a ha b hb heq ↦ ?_
    · exact Response.get?_table (fun b hb ↦ (hfound _ (hy b hb).1).symm) t
    · refine Response.entryOf?_table fun a ha ↦ ⟨?_, ?_⟩
      · simp [(hx a ha).2.1]
      · rw [(hx a ha).2.2]
        rintro r ⟨⟩
        exact hne.symm
    · exact hfound _ (hy b hb).1 (by rw [← heq, (hx a ha).1])

/-- Entries 3 to 5 share their configuration register, every bit of which is one, and entry 5 is
held on behalf of 0x2000: two requests for entries 3 and 4, two releases of which one finds nothing,
and a request for entry 4 with the release of entry 5. -/
theorem requests_commute_neighbours :
    ∃ (t : Table) (m : Machine), t.entryOf? 0x2000 = some (5 : Fin 16) ∧
      m.csrs.get (.pmaCfg 0) = 0xFFFFFFFFFFFFFFFF ∧
      Commutes t m (.assign ⟨0x40000000, 0x2000, 0x1000, 3⟩)
        (.assign ⟨0x40002000, 0x1000, 0x2000, 4⟩) ∧
      Commutes t m (.release ⟨0x2000, 0, 0, 0⟩) (.release ⟨0x1000, 0, 0, 0⟩) ∧
      Commutes t m (.assign ⟨0x40002000, 0x1000, 0x2000, 4⟩) (.release ⟨0x2000, 0, 0, 0⟩) := by
  let r : Region := ⟨0x50000000, 0x2000, 0x1000⟩
  let e : Fin entries := ⟨5, by decide⟩
  let t : Table := ⟨Table.empty.slots.set e (some r) e.isLt⟩
  let m : Machine :=
    { watchdog := ⟨1, 0, 0, 0⟩
      csrs := (CsrFile.zero.set .mmscCfg 0x40000000).set (.pmaCfg 0) 0xFFFFFFFFFFFFFFFF }
  have hfound : t.entryOf? r.va = some e :=
    Table.empty.entryOf?_set_self fun i _ r hr ↦ absurd hr (by simp)
  refine ⟨t, m, hfound, rfl, (requests_commute t m _ _).1 (by decide),
    (requests_commute t m _ _).2.1 (by decide),
    (requests_commute t m _ _).2.2 (by decide) fun i hi ↦ ?_⟩
  have hie : some i = some e := hi.symm.trans hfound
  rw [Option.some.inj hie]
  decide

end BringUp.Vendor
