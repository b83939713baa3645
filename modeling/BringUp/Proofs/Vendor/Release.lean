import BringUp.Proofs.Vendor.Call

/-!
# Releasing what was assigned

A region is assigned to an entry and released by the address of its owner. Nothing keeps an owner
from holding several entries, and a release gives up the lowest of them. So a release takes back the
assignment made just before it exactly if the owner held no lower entry (`release_undoes_iff`); if
it did, that entry is given up in place of the new one, which stays assigned.

What a release makes of the registers is the same in both cases, and only the entry differs
(`Clears`).
-/

namespace BringUp.Vendor

open Firmware Pma

/-! ### Registers -/

/-- The registers `after` are those `before` as far as the memory attribute entries go, but that
one entry is off and its address zero. -/
structure Clears (before : CsrFile) (e : Fin entries) (after : CsrFile) : Prop where
  /-- The entry is off. -/
  configByte_self : after.configByte e = 0
  /-- Its address is zero. -/
  pmaAddress_self : after.pmaAddress e = 0
  /-- Every other entry has the configuration byte that it had. -/
  configByte_of_ne : ∀ i ≠ e, after.configByte i = before.configByte i
  /-- Every other entry has the address that it had. -/
  pmaAddress_of_ne : ∀ i ≠ e, after.pmaAddress i = before.pmaAddress i

theorem clears_replay_releaseEvents (bank : CsrFile) (e : Fin entries) :
    Clears bank e (bank.replay (Table.releaseEvents bank e.val.toUInt64)) := by
  have he : e.val.toUInt64.toNat = e.val := Table.toNat_toUInt64_val e
  have hlt : e.val.toUInt64.toNat < entries := he.symm ▸ e.isLt
  have hconfig := Table.configByte_replay_releaseEvents hlt bank
  have haddress := Table.pmaAddress_replay_releaseEvents hlt bank
  simp only [he] at hconfig haddress
  exact {
    configByte_self := (hconfig e).trans (if_pos rfl)
    pmaAddress_self := (haddress e).trans (if_pos rfl)
    configByte_of_ne i hi := (hconfig i).trans (if_neg (Fin.val_ne_of_ne hi))
    pmaAddress_of_ne i hi := (haddress i).trans (if_neg (Fin.val_ne_of_ne hi)) }

/-- What happened to the entry before it was cleared does not matter. -/
theorem Clears.of_assign {before middle after : CsrFile} {e : Fin entries}
    (h : Clears middle e after) (hconfig : ∀ i ≠ e, middle.configByte i = before.configByte i)
    (haddress : ∀ i ≠ e, middle.pmaAddress i = before.pmaAddress i) : Clears before e after where
  configByte_self := h.configByte_self
  pmaAddress_self := h.pmaAddress_self
  configByte_of_ne i hi := (h.configByte_of_ne i hi).trans (hconfig i hi)
  pmaAddress_of_ne i hi := (h.pmaAddress_of_ne i hi).trans (haddress i hi)

/-! ### The two calls -/

variable {t t₁ : Table} {m m₁ : Machine} {c : Call}

/-- A request for an entry that succeeded had passed every check, and assigned the entry. -/
theorem Call.assigned_of_success (hext : c.extension = extensionId) (hfun : c.function = 10)
    {reply : Reply} (h : c.answer t m = .ok (reply, t₁) m₁) (hreply : reply.status = 0) :
    ∃ (hgrant : c.Granted t m.csrs) (text : String),
      t₁ = ⟨t.slots.set c.args.fourth.toNat (some c.region) hgrant.accepts.entry_lt⟩ ∧
      m₁ = m.perform (.csrRead .mmscCfg (m.csrs.get .mmscCfg) ::
        (Table.assignEvents m.csrs c.region c.args.fourth ++ [.log .debug text])) := by
  obtain ⟨es, reply', t', hrun, heffect, hgranted⟩ := runs_answer t m.csrs c
  have hout := h.symm.trans hrun.apply
  cases hout
  have hgrant : c.Granted t m.csrs := (hgranted hext hfun).1 hreply
  cases heffect with
  | aside hno => exact absurd hgrant hno
  | assign _ text => exact ⟨hgrant, text, rfl, rfl⟩
  | release hno => exact absurd hgrant hno

/-- A release on behalf of somebody who holds an entry succeeds, and gives the lowest one up. -/
theorem Call.released_of_entryOf? (hext : c.extension = extensionId) (hfun : c.function = 11)
    {i : Fin entries} (hi : t.entryOf? c.args.first = some i) (m : Machine) :
    ∃ m', c.answer t m = .ok (⟨0, 0⟩, ⟨t.slots.set i none i.isLt⟩) m' ∧
      Clears m.csrs i m'.csrs := by
  obtain ⟨text, hrelease⟩ := t.runs_release_of_some hi m.csrs
  have hserve : Runs (serve t c.extension c.function c.args) m.csrs
      (Table.releaseEvents m.csrs i.val.toUInt64 ++ [.log .debug text] ++ [])
      (.ok (0, ⟨t.slots.set i none i.isLt⟩)) := by
    rw [hext, serve_of_ofId? (Command.ofId?_eq_some_releaseEntry_iff.2 hfun)]
    exact hrelease.bind (runs_pure _ _)
  refine ⟨_, (runs_answer_of_ok hserve).apply, ?_⟩
  -- the log record at the end changes no register
  rw [Machine.csrs_perform, List.append_nil, CsrFile.replay_append]
  exact clears_replay_releaseEvents m.csrs i

/-! ### A release right after an assignment -/

/-- **A release takes back the assignment just before it exactly if the owner held no lower entry.**
It succeeds in any case. If the owner held none, table and other entries are as they were before the
assignment, and the entry is off. Otherwise the lowest entry that the owner held is given up, and
the new one stays assigned. -/
theorem release_undoes_iff {pa va size entry : UInt64} {reply : Reply}
    (hassign : Call.answer t ⟨extensionId, 10, ⟨pa, va, size, entry⟩⟩ m = .ok (reply, t₁) m₁)
    (hreply : reply.status = 0) {args : Arguments} (hva : args.first = va) :
    ∃ (e : Fin 16) (reply₂ : Reply) (t₂ : Table) (m₂ : Machine), e.val = entry.toNat ∧
      Call.answer t₁ ⟨extensionId, 11, args⟩ m₁ = .ok (reply₂, t₂) m₂ ∧ reply₂.status = 0 ∧
      (t₂ = t ↔ ∀ i < e, ∀ r, t.slots.get i = some r → r.va ≠ va) ∧
      (t₂ = t → Clears m.csrs e m₂.csrs) ∧
      (t₂ ≠ t → t₂.slots.get e = some ⟨pa, va, size⟩ ∧ m₂.csrs.configByte e = 0x0F ∧
        ∃ i < e, t.entryOf? va = some i ∧ t₂.slots.get i = none ∧ Clears m₁.csrs i m₂.csrs) := by
  obtain ⟨hgrant, text, rfl, hm₁⟩ := Call.assigned_of_success rfl rfl hassign hreply
  have hlt : entry.toNat < entries := hgrant.accepts.entry_lt
  let r : Region := ⟨pa, va, size⟩
  let e : Fin entries := ⟨entry.toNat, hlt⟩
  have hfree : t.slots.get e = none := (t.get?_eq_getElem hlt).symm.trans hgrant.accepts.free
  -- the registers between the two calls
  have hcsrs : m₁.csrs = m.csrs.replay (Table.assignEvents m.csrs r entry) := by
    rw [hm₁, Machine.csrs_perform, CsrFile.replay_cons, CsrFile.replay_append]
    rfl
  have hconfig (i : Fin entries) : m₁.csrs.configByte i = if i.val = entry.toNat then regionConfig
      else m.csrs.configByte i := by
    rw [hcsrs, Table.configByte_replay_assignEvents hlt]
  have haddress (i : Fin entries) (hi : i ≠ e) : m₁.csrs.pmaAddress i = m.csrs.pmaAddress i := by
    rw [hcsrs, Table.pmaAddress_replay_assignEvents hlt, if_neg (Fin.val_ne_of_ne hi)]
  -- the call that follows gives up whatever entry is now the owner's lowest
  have hrelease {i : Fin entries}
      (hi : Table.entryOf? ⟨t.slots.set e (some r) e.isLt⟩ va = some i) :=
    Call.released_of_entryOf? (c := ⟨extensionId, 11, args⟩) rfl rfl (hva.symm ▸ hi) m₁
  rcases t.entryOf?_set_cases e r with ⟨hnone, hself⟩ | ⟨i, hi, howner, hlowest⟩
  · obtain ⟨m₂, hrun, hclears⟩ := hrelease hself
    have hrestored := t.set_none_set hfree (some r)
    refine ⟨e, _, _, m₂, rfl, hrun, rfl, iff_of_true hrestored hnone, fun _ ↦ ?_,
      fun hne ↦ absurd hrestored hne⟩
    exact hclears.of_assign (fun i hi ↦ (hconfig i).trans (if_neg (Fin.val_ne_of_ne hi))) haddress
  · obtain ⟨m₂, hrun, hclears⟩ := hrelease hlowest
    have hei : e ≠ i := (Fin.ne_of_lt hi).symm
    -- the new entry is still held, which it was not before
    have hkept : ((t.slots.set e (some r) e.isLt).set i none i.isLt).get e = some r := by
      rw [Table.get_slots_set ⟨t.slots.set e (some r) e.isLt⟩, if_neg (Fin.val_ne_of_ne hei),
        Table.get_slots_set, if_pos rfl]
    have hne : (⟨(t.slots.set e (some r) e.isLt).set i none i.isLt⟩ : Table) ≠ t := by
      intro heq
      rw [← heq, hkept] at hfree
      cases hfree
    obtain ⟨⟨r', hr', hva'⟩, -⟩ := t.entryOf?_eq_some_iff.1 howner
    refine ⟨e, _, _, m₂, rfl, hrun, rfl, iff_of_false hne fun hnone ↦ hnone i hi r' hr' hva',
      fun heq ↦ absurd heq hne, fun _ ↦ ⟨hkept, ?_, i, hi, howner, ?_, hclears⟩⟩
    · rw [hclears.configByte_of_ne e hei, hconfig, if_pos rfl]
      rfl
    · rw [Table.get_slots_set ⟨t.slots.set e (some r) e.isLt⟩, if_pos rfl]

/-- Two pages at entry 9 for an owner that held nothing: taken back by the release. -/
theorem release_undoes_iff_two_pages :
    ∃ reply t₁ m₁ reply₂ m₂,
      Call.answer .empty ⟨extensionId, 10, ⟨0x40002000, 0x1000, 0x2000, 9⟩⟩
          { watchdog := ⟨1, 0, 0, 0⟩, csrs := CsrFile.zero.set .mmscCfg 0x40000000 } =
        .ok (reply, t₁) m₁ ∧ t₁ ≠ .empty ∧
      Call.answer t₁ ⟨extensionId, 11, ⟨0x1000, 0, 0, 0⟩⟩ m₁ = .ok (reply₂, .empty) m₂ ∧
      reply₂.status = 0 ∧ Clears (CsrFile.zero.set .mmscCfg 0x40000000) (9 : Fin 16) m₂.csrs := by
  let m : Machine := { watchdog := ⟨1, 0, 0, 0⟩, csrs := CsrFile.zero.set .mmscCfg 0x40000000 }
  let c : Call := ⟨extensionId, 10, ⟨0x40002000, 0x1000, 0x2000, 9⟩⟩
  let args : Arguments := ⟨0x1000, 0, 0, 0⟩
  have hva : args.first = 0x1000 := rfl
  have hends : (c.answer .empty).endsWith
      (fun out _ ↦ decide (out.1.status = 0 ∧ out.2 ≠ .empty)) m = true := by decide +kernel
  obtain ⟨⟨reply, t₁⟩, m₁, hassign, hout⟩ := endsWith_iff.1 hends
  obtain ⟨hreply, hne⟩ := of_decide_eq_true hout
  obtain ⟨e, reply₂, t₂, m₂, he, hrelease, hstatus, hundone, hclears, -⟩ :=
    release_undoes_iff hassign hreply hva
  have hnone : ∀ i : Fin 16, Table.empty.slots.get i = none := fun i ↦
    Vector.getElem_replicate i.isLt
  have hempty : t₂ = .empty := hundone.2 fun i _ r hr ↦ absurd hr (by simp [hnone])
  have he9 : e = 9 := Fin.ext he
  subst hempty he9
  exact ⟨reply, t₁, m₁, reply₂, m₂, hassign, hne, hrelease, hstatus, hclears rfl⟩

/-- An owner that holds a page at entry 3 and is given two pages at entry 9: both calls succeed, and
so does the release, which gives entry 3 up and leaves entry 9 on. -/
theorem release_of_lower_entry :
    ∃ replies t m reply₁ t₁ m₁ reply₂ t₂ m₂,
      Call.answerAll .empty [⟨extensionId, 10, ⟨0x40000000, 0x1000, 0x1000, 3⟩⟩]
          { watchdog := ⟨1, 0, 0, 0⟩, csrs := CsrFile.zero.set .mmscCfg 0x40000000 } =
        .ok (replies, t) m ∧
      Call.answer t ⟨extensionId, 10, ⟨0x40002000, 0x1000, 0x2000, 9⟩⟩ m =
        .ok (reply₁, t₁) m₁ ∧ reply₁.status = 0 ∧
      Call.answer t₁ ⟨extensionId, 11, ⟨0x1000, 0, 0, 0⟩⟩ m₁ = .ok (reply₂, t₂) m₂ ∧
      reply₂.status = 0 ∧ t₂ ≠ t ∧ m₂.csrs.configByte (9 : Fin 16) ≠ 0 ∧ t₂.get? 3 ≠ t.get? 3 ∧
      m₂.csrs.configByte (3 : Fin 16) ≠ m.csrs.configByte (3 : Fin 16) ∧
      m₂.csrs.pmaAddress (3 : Fin 16) ≠ m.csrs.pmaAddress (3 : Fin 16) := by
  let m₀ : Machine := { watchdog := ⟨1, 0, 0, 0⟩, csrs := CsrFile.zero.set .mmscCfg 0x40000000 }
  let first : Call := ⟨extensionId, 10, ⟨0x40000000, 0x1000, 0x1000, 3⟩⟩
  let second : Call := ⟨extensionId, 10, ⟨0x40002000, 0x1000, 0x2000, 9⟩⟩
  let release : Call := ⟨extensionId, 11, ⟨0x1000, 0, 0, 0⟩⟩
  -- each call is tested in the machine that the call before it leaves
  have hends : (Call.answerAll .empty [first]).endsWith (fun out m ↦
      (second.answer out.2).endsWith (fun out₁ m₁ ↦
        (release.answer out₁.2).endsWith (fun out₂ m₂ ↦
          decide (out₁.1.status = 0 ∧ out₂.1.status = 0 ∧ out₂.2 ≠ out.2 ∧
            m₂.csrs.configByte (9 : Fin 16) ≠ 0 ∧ out₂.2.get? 3 ≠ out.2.get? 3 ∧
            m₂.csrs.configByte (3 : Fin 16) ≠ m.csrs.configByte (3 : Fin 16) ∧
            m₂.csrs.pmaAddress (3 : Fin 16) ≠ m.csrs.pmaAddress (3 : Fin 16)))
          m₁) m) m₀ = true := by
    decide +kernel
  obtain ⟨⟨replies, t⟩, m, hfirst, htest⟩ := endsWith_iff.1 hends
  obtain ⟨⟨reply₁, t₁⟩, m₁, hsecond, htest⟩ := endsWith_iff.1 htest
  obtain ⟨⟨reply₂, t₂⟩, m₂, hrelease, htest⟩ := endsWith_iff.1 htest
  obtain ⟨hreply₁, hreply₂, hne, hconfig, hslot, hconfig', haddress⟩ := of_decide_eq_true htest
  exact ⟨replies, t, m, reply₁, t₁, m₁, reply₂, t₂, m₂, hfirst, hsecond, hreply₁, hrelease,
    hreply₂, hne, hconfig, hslot, hconfig', haddress⟩

end BringUp.Vendor
