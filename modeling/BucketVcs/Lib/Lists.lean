import Mathlib.Data.List.Forall2

/-! Fallible traversals of lists and the pairing of their inputs with their outputs. -/

namespace Lists

open List

variable {α β ε : Type}

variable {f : α → Except ε β} {xs : List α} {ys : List β} {R : α → β → Prop}

theorem forall₂_of_mapM (mapped : xs.mapM f = .ok ys) : Forall₂ (fun x y => f x = .ok y) xs ys := by
  induction xs generalizing ys with
  | nil =>
    cases mapped
    exact .nil
  | cons x xs ih =>
    rw [mapM_cons] at mapped
    cases head : f x with
    | error e => simp [head, bind, Except.bind] at mapped
    | ok y =>
      cases tail : xs.mapM f with
      | error e => simp [head, tail, bind, Except.bind] at mapped
      | ok rest =>
        simp only [head, tail] at mapped
        cases mapped
        exact .cons head (ih tail)

theorem mapM_ok {g : α → β} (each : ∀ x ∈ xs, f x = .ok (g x)) : xs.mapM f = .ok (xs.map g) := by
  induction xs with
  | nil => rfl
  | cons x xs ih =>
    have head := each x mem_cons_self
    have tail := ih fun other member => each other (mem_cons_of_mem _ member)
    simp [head, tail, bind, Except.bind, pure, Except.pure]

theorem exists_of_mem_right (related : Forall₂ R xs ys) {y : β} (member : y ∈ ys) :
    ∃ x ∈ xs, R x y := by
  induction related with
  | nil => cases member
  | cons first rest ih =>
    rcases mem_cons.mp member with rfl | later
    · exact ⟨_, mem_cons_self, first⟩
    · obtain ⟨x, inside, holds⟩ := ih later
      exact ⟨x, mem_cons_of_mem _ inside, holds⟩

theorem exists_of_mem_left (related : Forall₂ R xs ys) {x : α} (member : x ∈ xs) :
    ∃ y ∈ ys, R x y := exists_of_mem_right related.flip member

theorem lookup_none_iff [BEq α] [LawfulBEq α] {pairs : List (α × β)} {key : α} :
    pairs.lookup key = none ↔ key ∉ pairs.map Prod.fst := by
  rw [lookup_eq_none_iff]
  constructor
  · intro apart member
    obtain ⟨entry, inside, same⟩ := mem_map.mp member
    simpa [same] using apart entry inside
  · intro absent entry inside
    have different : key ≠ entry.1 := fun same =>
      absent (mem_map.mpr ⟨entry, inside, same.symm⟩)
    simpa using different

end Lists
