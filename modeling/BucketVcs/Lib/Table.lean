import Mathlib.Data.Option.Basic

/-! The rows of a table under their primary key, and the statements that update or delete all rows
that meet a condition. -/

namespace Table

variable {K R : Type} (table : K → Option R) (where_ : K → R → Bool)

def updateWhere (change : R → R) : K → Option R := fun key =>
  (table key).map fun row => if where_ key row then change row else row

def deleteWhere : K → Option R := fun key => (table key).filter fun row => !where_ key row

variable {table where_} {change : R → R} {key : K} {row after : R}

theorem updateWhere_eq_some (found : updateWhere table where_ change key = some after) :
    ∃ before, table key = some before ∧
      ((where_ key before = true ∧ after = change before) ∨
        (where_ key before = false ∧ after = before)) := by
  obtain ⟨before, here, changed⟩ := Option.map_eq_some_iff.mp found
  refine ⟨before, here, ?_⟩
  cases met : where_ key before with
  | true => exact .inl ⟨rfl, by simpa [met] using changed.symm⟩
  | false => exact .inr ⟨rfl, by simpa [met] using changed.symm⟩

theorem updateWhere_of_not (here : table key = some row) (unmet : where_ key row = false) :
    updateWhere table where_ change key = some row := by
  simp [updateWhere, here, unmet]

theorem updateWhere_of_met (here : table key = some row) (met : where_ key row = true) :
    updateWhere table where_ change key = some (change row) := by
  simp [updateWhere, here, met]

@[simp] theorem updateWhere_eq_none :
    updateWhere table where_ change key = none ↔ table key = none := by
  simp [updateWhere]

theorem deleteWhere_eq_some :
    deleteWhere table where_ key = some row ↔ table key = some row ∧ where_ key row = false := by
  simp [deleteWhere]

theorem deleteWhere_of_none (gone : table key = none) : deleteWhere table where_ key = none := by
  simp [deleteWhere, gone]

end Table
