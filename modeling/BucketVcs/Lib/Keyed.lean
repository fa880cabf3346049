import Mathlib.Data.List.Nodup

/-! Tables whose rows have an id and a second key, both unique: lookups by the key, and what a
deletion by id and an insertion do to them. -/

namespace Keyed

open List

variable {R I K : Type} [DecidableEq I] [DecidableEq K]

structure Rows (id : R → I) (key : R → K) where
  rows : List R
  ids : (rows.map id).Nodup
  keys : (rows.map key).Nodup

variable {id : R → I} {key : R → K}

namespace Rows

def find (table : Rows id key) (k : K) : Option R := table.rows.find? fun row => key row = k

def remove (table : Rows id key) (i : I) : Rows id key where
  rows := table.rows.filter fun row => id row ≠ i
  ids := table.ids.sublist (List.filter_sublist.map id)
  keys := table.keys.sublist (List.filter_sublist.map key)

def insert (table : Rows id key) (row : R) : Option (Rows id key) :=
  if fresh : id row ∉ table.rows.map id ∧ key row ∉ table.rows.map key then
    some ⟨row :: table.rows, List.nodup_cons.mpr ⟨fresh.1, table.ids⟩,
      List.nodup_cons.mpr ⟨fresh.2, table.keys⟩⟩
  else none

variable {table after : Rows id key} {row : R} {k : K} {i : I}

omit [DecidableEq I] in
theorem find_eq_some_iff : table.find k = some row ↔ row ∈ table.rows ∧ key row = k := by
  constructor
  · intro found
    exact ⟨List.mem_of_find?_eq_some found, by simpa using List.find?_some found⟩
  · rintro ⟨member, rfl⟩
    cases found : table.find (key row) with
    | none =>
      have absent := List.find?_eq_none.mp found row member
      simp at absent
    | some other =>
      have same : key other = key row := by simpa using List.find?_some found
      rw [inj_on_of_nodup_map table.keys (List.mem_of_find?_eq_some found) member same]

omit [DecidableEq I] in
theorem find_eq_none_iff : table.find k = none ↔ ∀ row ∈ table.rows, key row ≠ k := by
  simp [find]

omit [DecidableEq K] in
theorem mem_remove : row ∈ (table.remove i).rows ↔ row ∈ table.rows ∧ id row ≠ i := by
  simp [remove]

theorem find_remove_of_ne (found : table.find k = some row) (different : id row ≠ i) :
    (table.remove i).find k = some row := by
  obtain ⟨member, same⟩ := find_eq_some_iff.mp found
  exact find_eq_some_iff.mpr ⟨mem_remove.mpr ⟨member, different⟩, same⟩

theorem find_remove_of_none (absent : table.find k = none) : (table.remove i).find k = none := by
  apply find_eq_none_iff.mpr
  intro row member
  exact find_eq_none_iff.mp absent row (mem_remove.mp member).1

theorem find_remove_self (found : table.find k = some row) : (table.remove (id row)).find k = none := by
  obtain ⟨member, same⟩ := find_eq_some_iff.mp found
  apply find_eq_none_iff.mpr
  intro other kept equal
  obtain ⟨here, different⟩ := mem_remove.mp kept
  apply different
  rw [inj_on_of_nodup_map table.keys here member (equal.trans same.symm)]

theorem find_remove_other (found : table.find k = some row) {other : K} (different : other ≠ k) :
    (table.remove (id row)).find other = table.find other := by
  obtain ⟨member, same⟩ := find_eq_some_iff.mp found
  cases there : table.find other with
  | none => exact find_remove_of_none there
  | some second =>
    apply find_remove_of_ne there
    obtain ⟨memberToo, sameToo⟩ := find_eq_some_iff.mp there
    intro equal
    have identical := inj_on_of_nodup_map table.ids memberToo member equal
    exact different (by rw [← sameToo, identical, same])

section

variable (inserted : table.insert row = some after)
include inserted

theorem insert_rows : after.rows = row :: table.rows := by
  unfold insert at inserted
  split at inserted
  · cases inserted
    rfl
  · cases inserted

theorem find_insert_self : after.find (key row) = some row := by
  apply find_eq_some_iff.mpr
  rw [insert_rows inserted]
  exact ⟨mem_cons_self, rfl⟩

theorem find_insert_other (different : k ≠ key row) : after.find k = table.find k := by
  simp only [find, insert_rows inserted]
  apply List.find?_cons_of_neg
  simpa using different.symm

end

end Rows

end Keyed
