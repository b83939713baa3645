import BringUp.Proofs.Pma.Edit

/-!
# Owners of entries

Whoever asks for a region owns the entry that holds it. `Table.owners` lists the owners in the order
of their entries, an owner of several entries once for each. Giving up an entry takes its owner off
the list once (`owners_perm`). `Table.without` gives up several.
-/

namespace BringUp.Pma

namespace Table

variable (t : Table)

/-- Owner of the region that an entry holds. -/
def owner? (e : Fin entries) : Option UInt64 :=
  (t.slots.get e).map Region.va

/-- The owners of the regions held, one for each entry in use. -/
def owners : List UInt64 :=
  t.slots.toList.filterMap (Option.map Region.va)

/-- The table with entries given up. -/
def without (es : List (Fin entries)) : Table :=
  es.foldl (fun t e ↦ (Edit.release e).table t) t

/-! ### Owners -/

variable {t}

theorem owner?_eq_some_iff {e : Fin entries} {va : UInt64} :
    t.owner? e = some va ↔ ∃ r, t.slots.get e = some r ∧ r.va = va := by
  rw [owner?, Option.map_eq_some_iff]

theorem mem_owners_iff {va : UInt64} : va ∈ t.owners ↔ ∃ e, t.owner? e = some va := by
  rw [owners, List.mem_filterMap]
  constructor
  · rintro ⟨slot, hmem, hva⟩
    obtain ⟨i, hi, rfl⟩ := Vector.getElem_of_mem (Vector.mem_toList_iff.1 hmem)
    exact ⟨⟨i, hi⟩, hva⟩
  · rintro ⟨e, he⟩
    exact ⟨t.slots.get e, Vector.mem_toList_iff.2 (Vector.getElem_mem e.isLt), he⟩

/-- The entry found for an owner is the lowest one of that owner. -/
theorem entryOf?_eq_some_iff_owner? {va : UInt64} {i : Fin entries} :
    t.entryOf? va = some i ↔ t.owner? i = some va ∧ ∀ j < i, t.owner? j ≠ some va := by
  simp only [entryOf?_eq_some_iff, ne_eq, owner?_eq_some_iff, not_exists, not_and]

theorem exists_entryOf? {va : UInt64} (h : va ∈ t.owners) : ∃ i, t.entryOf? va = some i := by
  obtain ⟨e, he⟩ := mem_owners_iff.1 h
  obtain ⟨r, hr, hva⟩ := owner?_eq_some_iff.1 he
  refine Option.ne_none_iff_exists'.1 fun hnone ↦ ?_
  exact t.entryOf?_eq_none_iff.1 hnone e r hr hva

theorem get_slots_release (i e : Fin entries) :
    ((Edit.release i).table t).slots.get e = if e = i then none else t.slots.get e :=
  (Edit.release i).get_slots_table t e

theorem owner?_release_of_ne {i e : Fin entries} (h : e ≠ i) :
    ((Edit.release i).table t).owner? e = t.owner? e := by
  rw [owner?, get_slots_release, if_neg h, owner?]

/-- When an entry is given up its owner goes from the list once. -/
theorem owners_perm {i : Fin entries} {va : UInt64} (h : t.owner? i = some va) :
    t.owners.Perm (va :: ((Edit.release i).table t).owners) := by
  let slots := t.slots.toList
  let owners? : List (Option Region) → List UInt64 := List.filterMap (Option.map Region.va)
  have hi : i.val < slots.length := by
    rw [Vector.length_toList]
    exact i.isLt
  have hslot : Option.map Region.va slots[i.val] = some va := h
  -- the slots are the same before and after but for the entry itself
  have hbefore : slots = slots.take i.val ++ slots[i.val] :: slots.drop (i.val + 1) := by
    rw [List.getElem_cons_drop, List.take_append_drop]
  have hafter : ((Edit.release i).table t).slots.toList =
      slots.take i.val ++ none :: slots.drop (i.val + 1) :=
    (Vector.toList_set i.isLt).trans (List.set_eq_take_append_cons_drop.trans (if_pos hi))
  have howners : t.owners = owners? (slots.take i.val) ++ va :: owners? (slots.drop (i.val + 1)) :=
    calc t.owners = owners? (slots.take i.val ++ slots[i.val] :: slots.drop (i.val + 1)) :=
          congrArg owners? hbefore
      _ = owners? (slots.take i.val) ++ va :: owners? (slots.drop (i.val + 1)) := by
          simp only [owners?, List.filterMap_append, List.filterMap_cons, hslot]
  have howners' : ((Edit.release i).table t).owners =
      owners? (slots.take i.val) ++ owners? (slots.drop (i.val + 1)) := by
    rw [owners, hafter, List.filterMap_append]
    rfl
  rw [howners, howners']
  exact List.perm_middle

/-! ### Giving up several entries -/

theorem without_cons (e : Fin entries) (es : List (Fin entries)) :
    t.without (e :: es) = ((Edit.release e).table t).without es := rfl

/-- An entry is free afterwards if it was free before or is given up. -/
theorem get_slots_without_eq_none {es : List (Fin entries)} {e : Fin entries}
    (h : (t.slots.get e).isSome → e ∈ es) : (t.without es).slots.get e = none := by
  induction es generalizing t with
  | nil => exact Option.not_isSome_iff_eq_none.1 fun hsome ↦ absurd (h hsome) List.not_mem_nil
  | cons i es ih =>
    rw [without_cons]
    refine ih fun hsome ↦ ?_
    rw [get_slots_release] at hsome
    split at hsome
    · cases hsome
    · next hi => exact (List.mem_cons.1 (h hsome)).resolve_left hi

theorem eq_empty_of_get_eq_none (h : ∀ e, t.slots.get e = none) : t = empty := by
  refine congrArg Table.mk (Vector.ext fun j hj ↦ ?_)
  rw [Vector.getElem_replicate]
  exact h ⟨j, hj⟩

/-- Nothing is left when every entry in use is given up. -/
theorem without_eq_empty {es : List (Fin entries)} (h : ∀ e, (t.slots.get e).isSome → e ∈ es) :
    t.without es = empty :=
  eq_empty_of_get_eq_none fun e ↦ get_slots_without_eq_none (h e)

end Table

end BringUp.Pma
