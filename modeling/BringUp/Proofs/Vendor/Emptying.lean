import BringUp.Proofs.Pma.Owners
import BringUp.Proofs.Vendor.Release

/-!
# Releasing everything

Releases can be asked for in any order as long as each owner is named once for each entry held.
Every release then finds an entry of its owner, namely the lowest that is left (`ReleasedInTurn`),
and the last one leaves no entry in use. Table and configuration registers are then as after a
clearing (`releases_eq_clear`): by `Table.Agrees` an entry that is not in use is off, and the byte
of each entry is all that the registers hold.
-/

namespace BringUp.Vendor

open Firmware Pma

variable {t : Table} {m : Machine}

/-! ### Calls in a row -/

theorem Call.answerAll_cons_of_ok {c : Call} {calls : List Call} {reply : Reply}
    {replies : List Reply} {t₁ t' : Table} {m₁ m' : Machine}
    (hc : c.answer t m = .ok (reply, t₁) m₁)
    (hcalls : Call.answerAll t₁ calls m₁ = .ok (replies, t') m') :
    Call.answerAll t (c :: calls) m = .ok (reply :: replies, t') m' := by
  rw [answerAll]
  exact (bind_of_ok hc).trans (bind_of_ok hcalls)

/-- Calls keep table and hardware in agreement. -/
theorem Call.agrees_of_answerAll {calls : List Call} {replies : List Reply} {t' : Table}
    {m' : Machine} (ht : t.Agrees m.csrs)
    (h : Call.answerAll t calls m = .ok (replies, t') m') : t'.Agrees m'.csrs := by
  induction calls generalizing t m replies with
  | nil =>
    cases h
    exact ht
  | cons c calls ih =>
    obtain ⟨es, reply, t₁, hanswer, heffect, -⟩ := runs_answer t m.csrs c
    rw [answerAll, bind_of_ok hanswer.apply] at h
    obtain ⟨⟨replies', t₂⟩, m₂, hcalls, hend⟩ := bind_eq_ok_iff.1 h
    cases hend
    exact ih (heffect.agrees ht) hcalls

/-- A release on behalf of somebody who holds nothing is refused. -/
theorem Call.refused_of_entryOf?_eq_none {args : Arguments} (h : t.entryOf? args.first = none)
    (m : Machine) : ∃ m', (Call.release args).answer t m = .ok (⟨-3, 0⟩, t) m' := by
  have hm : (Call.release args).Malformed t m.csrs :=
    ⟨rfl, .inr ⟨rfl, t.entryOf?_eq_none_iff.1 h⟩⟩
  obtain ⟨es, what, hserve, -⟩ := runs_serve_of_malformed hm
  exact ⟨_, (runs_answer_of_failure hserve).apply⟩

/-! ### Releases in turn -/

/-- Releases give up all entries in use, in a certain order: each succeeds and gives up one entry of
the owner on whose behalf it is, and the entries of one owner go from the lowest to the highest. -/
structure ReleasedInTurn (t : Table) (m : Machine) (asks : List Arguments)
    (order : List (Fin entries)) : Prop where
  /-- Up to any point the releases succeed, and the first entries of the order are given up. -/
  run : ∀ k ≤ asks.length, ∃ m', Call.answerAll t ((asks.take k).map .release) m =
    .ok (List.replicate k ⟨0, 0⟩, t.without (order.take k)) m'
  /-- Each entry is one of the owner asked for. -/
  owner_eq : order.map t.owner? = asks.map fun args ↦ some args.first
  /-- No entry is given up twice. -/
  nodup : order.Nodup
  /-- The entries given up are those in use. -/
  mem_iff : ∀ e, e ∈ order ↔ (t.slots.get e).isSome
  /-- The entries of an owner go in ascending order. -/
  ascending : order.Pairwise fun i j ↦ t.owner? i = t.owner? j → i < j

namespace ReleasedInTurn

variable {asks : List Arguments} {order : List (Fin entries)}

theorem nil (h : t.owners = []) : ReleasedInTurn t m [] [] where
  run k hk := by
    obtain rfl := Nat.le_zero.1 hk
    exact ⟨m, rfl⟩
  owner_eq := rfl
  nodup := .nil
  mem_iff e := by
    refine iff_of_false List.not_mem_nil fun hsome ↦ ?_
    obtain ⟨r, hr⟩ := Option.isSome_iff_exists.1 hsome
    have hmem : r.va ∈ t.owners :=
      Table.mem_owners_iff.2 ⟨e, Table.owner?_eq_some_iff.2 ⟨r, hr, rfl⟩⟩
    rw [h] at hmem
    cases hmem
  ascending := .nil

/-- The owner's lowest entry is given up first, and the others in their turn. -/
theorem cons {args : Arguments} {i : Fin entries} {m₁ : Machine}
    (hi : t.entryOf? args.first = some i)
    (hanswer : (Call.release args).answer t m = .ok (⟨0, 0⟩, (Edit.release i).table t) m₁)
    (h : ReleasedInTurn ((Edit.release i).table t) m₁ asks order) :
    ReleasedInTurn t m (args :: asks) (i :: order) := by
  obtain ⟨howner, hlowest⟩ := Table.entryOf?_eq_some_iff_owner?.1 hi
  have hinUse : (t.slots.get i).isSome := by
    obtain ⟨r, hr, -⟩ := Table.owner?_eq_some_iff.1 howner
    rw [hr]
    rfl
  -- the entries given up later are not the first one, and had the same owners before
  have hne : ∀ j ∈ order, j ≠ i := by
    rintro j hj rfl
    have hsome := (h.mem_iff j).1 hj
    rw [Table.get_slots_release, if_pos rfl] at hsome
    cases hsome
  have howners : ∀ j ∈ order, ((Edit.release i).table t).owner? j = t.owner? j := fun j hj ↦
    Table.owner?_release_of_ne (hne j hj)
  exact {
    run := by
      rintro (- | k) hk
      · exact ⟨m, rfl⟩
      · obtain ⟨m', hrun⟩ := h.run k (Nat.le_of_succ_le_succ hk)
        exact ⟨m', Call.answerAll_cons_of_ok hanswer hrun⟩
    owner_eq := by
      rw [List.map_cons, List.map_cons, howner, ← h.owner_eq, List.map_congr_left howners]
    nodup := List.nodup_cons.2 ⟨fun hmem ↦ hne i hmem rfl, h.nodup⟩
    mem_iff e := by
      rw [List.mem_cons, h.mem_iff, Table.get_slots_release]
      by_cases he : e = i
      · subst he
        exact iff_of_true (.inl rfl) hinUse
      · rw [if_neg he]
        exact or_iff_right he
    ascending := by
      refine List.pairwise_cons.2 ⟨fun j hj heq ↦ ?_, ?_⟩
      · have hge : ¬ j < i := fun hlt ↦ hlowest j hlt (heq.symm.trans howner)
        have hval : j.val ≠ i.val := Fin.val_ne_of_ne (hne j hj)
        omega
      · refine h.ascending.imp_of_mem fun {a b} ha hb hlt heq ↦ hlt ?_
        rw [howners a ha, howners b hb, heq] }

theorem length_eq (h : ReleasedInTurn t m asks order) : order.length = asks.length := by
  have hlength := congrArg List.length h.owner_eq
  rwa [List.length_map, List.length_map] at hlength

/-- All releases together leave the empty table. -/
theorem exists_run (h : ReleasedInTurn t m asks order) :
    ∃ m', Call.answerAll t (asks.map .release) m =
      .ok (List.replicate asks.length ⟨0, 0⟩, .empty) m' := by
  obtain ⟨m', hrun⟩ := h.run asks.length (Nat.le_refl _)
  have hempty : t.without order = .empty := Table.without_eq_empty fun e he ↦ (h.mem_iff e).2 he
  rw [List.take_length, ← h.length_eq, List.take_length, hempty, h.length_eq] at hrun
  exact ⟨m', hrun⟩

end ReleasedInTurn

/-- Whenever each owner is named once for each entry held, all releases succeed. -/
theorem exists_releasedInTurn {asks : List Arguments}
    (h : (asks.map Arguments.first).Perm t.owners) (m : Machine) :
    ∃ order, ReleasedInTurn t m asks order := by
  induction asks generalizing t m with
  | nil => exact ⟨[], .nil (List.nil_perm.1 h)⟩
  | cons args asks ih =>
    -- the owner named first holds an entry, and giving it up takes the owner off the list once
    obtain ⟨i, hi⟩ := Table.exists_entryOf? (h.subset List.mem_cons_self)
    obtain ⟨m₁, hanswer, -⟩ := Call.released_of_entryOf? (c := .release args) rfl rfl hi m
    have howner := (Table.entryOf?_eq_some_iff_owner?.1 hi).1
    obtain ⟨order, horder⟩ := ih (List.Perm.cons_inv (h.trans (Table.owners_perm howner))) m₁
    exact ⟨i :: order, horder.cons hi hanswer⟩

/-! ### Releasing everything -/

/-- **Releasing every entry in use comes to the same as clearing the table**, in whatever order the
owners are named, for every table that calls can lead to from registers with no entry on. All the
releases succeed, those of one owner in ascending order of entries. They leave no entry in use, the
table that clearing leaves, and the same in both configuration registers. A further release is
refused. -/
theorem releases_eq_clear {m₀ m : Machine} {calls : List Call} {replies : List Reply} {t : Table}
    (h₀ : m₀.csrs.get (.pmaCfg 0) = 0) (h₂ : m₀.csrs.get (.pmaCfg 2) = 0)
    (hcalls : Call.answerAll .empty calls m₀ = .ok (replies, t) m) {asks : List Arguments}
    (hasks : (asks.map Arguments.first).Perm t.owners) :
    (∃ order, ReleasedInTurn t m asks order) ∧
    ∃ t' m₁ m₂, Call.answerAll t (asks.map .release) m =
        .ok (List.replicate asks.length ⟨0, 0⟩, t') m₁ ∧ t'.inUse = 0 ∧
      Table.clear m = .ok t' m₂ ∧ m₁.csrs.get (.pmaCfg 0) = m₂.csrs.get (.pmaCfg 0) ∧
      m₁.csrs.get (.pmaCfg 2) = m₂.csrs.get (.pmaCfg 2) ∧
      ∀ args, ∃ m₃, (Call.release args).answer t' m₁ = .ok (⟨-3, 0⟩, t') m₃ := by
  obtain ⟨order, horder⟩ := exists_releasedInTurn hasks m
  obtain ⟨m₁, hrun⟩ := horder.exists_run
  -- with no entry in use agreement says that the registers are zero, either way
  have hagrees : t.Agrees m.csrs := Call.agrees_of_answerAll (Table.agrees_empty h₀ h₂) hcalls
  have hreleased := Table.pmaCfg_eq_zero_of_agrees_empty (Call.agrees_of_answerAll hagrees hrun)
  have hcleared := Table.pmaCfg_eq_zero_of_agrees_empty hagrees.clear
  refine ⟨⟨order, horder⟩, .empty, m₁, _, hrun, rfl, (Table.runs_clear m.csrs).apply,
    hreleased.1.trans hcleared.1.symm, hreleased.2.trans hcleared.2.symm, fun args ↦ ?_⟩
  exact Call.refused_of_entryOf?_eq_none
    (Table.empty.entryOf?_eq_none_iff.2 fun i r hr ↦ absurd hr (by simp)) m₁

/-- Entry 3 is held by one owner and entries 5 and 9 by another, who was given entry 9 first. The
releases name the two owners in turn, and whatever else a release carries does not matter. -/
theorem releases_eq_clear_two_owners :
    ∃ replies t m, Call.answerAll .empty
        [.assign ⟨0x40000000, 0x2000, 0x1000, 3⟩, .assign ⟨0x40002000, 0x1000, 0x2000, 9⟩,
          .assign ⟨0x40004000, 0x1000, 0x1000, 5⟩]
        { watchdog := ⟨1, 0, 0, 0⟩, csrs := CsrFile.zero.set .mmscCfg 0x40000000 } =
          .ok (replies, t) m ∧
      t.owners = [0x2000, 0x1000, 0x1000] ∧
      (∃ order, ReleasedInTurn t m
        [⟨0x1000, 0, 0, 0⟩, ⟨0x2000, 0, 0, 0⟩, ⟨0x1000, 1, 2, 3⟩] order) ∧
      ∃ t' m₁ m₂, Call.answerAll t [.release ⟨0x1000, 0, 0, 0⟩, .release ⟨0x2000, 0, 0, 0⟩,
          .release ⟨0x1000, 1, 2, 3⟩] m = .ok ([⟨0, 0⟩, ⟨0, 0⟩, ⟨0, 0⟩], t') m₁ ∧ t'.inUse = 0 ∧
        Table.clear m = .ok t' m₂ ∧ m₁.csrs.get (.pmaCfg 0) = m₂.csrs.get (.pmaCfg 0) ∧
        m₁.csrs.get (.pmaCfg 2) = m₂.csrs.get (.pmaCfg 2) ∧
        ∀ args, ∃ m₃, (Call.release args).answer t' m₁ = .ok (⟨-3, 0⟩, t') m₃ := by
  let m₀ : Machine := { watchdog := ⟨1, 0, 0, 0⟩, csrs := CsrFile.zero.set .mmscCfg 0x40000000 }
  let calls : List Call := [.assign ⟨0x40000000, 0x2000, 0x1000, 3⟩,
    .assign ⟨0x40002000, 0x1000, 0x2000, 9⟩, .assign ⟨0x40004000, 0x1000, 0x1000, 5⟩]
  have hends : (Call.answerAll .empty calls).endsWith
      (fun out _ ↦ decide (out.2.owners = [0x2000, 0x1000, 0x1000])) m₀ = true := by
    decide +kernel
  obtain ⟨⟨replies, t⟩, m, hcalls, hout⟩ := endsWith_iff.1 hends
  have howners : t.owners = [0x2000, 0x1000, 0x1000] := of_decide_eq_true hout
  refine ⟨replies, t, m, hcalls, howners, releases_eq_clear rfl rfl hcalls ?_⟩
  rw [howners]
  exact List.Perm.swap _ _ _

end BringUp.Vendor
