import Mathlib.Data.List.Basic

/-! A value that is replaced over and over: the replacements form a chain. -/

namespace Chain

open List

variable {L R : Type}

/-- The links, newest first, lead from `first` to `current` without a gap. -/
def Chained (prev next : L → R) (first : R) : List L → R → Prop
  | [], current => current = first
  | link :: older, current => current = next link ∧ Chained prev next first older (prev link)

def values (next : L → R) (first : R) (links : List L) : List R := links.map next ++ [first]

variable {prev next : L → R} {first current : R} {links : List L}

theorem mem_values {value : R} :
    value ∈ values next first links ↔ value = first ∨ ∃ link ∈ links, next link = value := by
  simp [values, or_comm]

section

variable (chained : Chained prev next first links current)

include chained

theorem Chained.current_mem : current ∈ values next first links := by
  cases links with
  | nil => exact mem_values.mpr (.inl chained)
  | cons link older => exact mem_values.mpr (.inr ⟨link, mem_cons_self, chained.1.symm⟩)

theorem Chained.prev_mem {link : L} (member : link ∈ links) :
    prev link ∈ values next first links := by
  induction links generalizing current with
  | nil => cases member
  | cons newest older ih =>
    rcases mem_cons.mp member with rfl | inside
    · exact mem_cons_of_mem _ chained.2.current_mem
    · exact mem_cons_of_mem _ (ih chained.2 inside)

/-- What the first value has and every link keeps, all values have. -/
theorem Chained.invariant {P : R → Prop} (init : P first)
    (keep : ∀ link ∈ links, P (prev link) → P (next link)) :
    ∀ value ∈ values next first links, P value := by
  induction links generalizing current with
  | nil =>
    intro value member
    have same : value = first := by simpa [values] using member
    exact same ▸ init
  | cons newest older ih =>
    have earlier := ih chained.2 fun link inside => keep link (mem_cons_of_mem _ inside)
    intro value member
    rcases mem_cons.mp member with rfl | inside
    · exact keep newest mem_cons_self (earlier _ chained.2.current_mem)
    · exact earlier value inside

theorem Chained.le_current {rank : R → Nat}
    (raises : ∀ link ∈ links, rank (next link) = rank (prev link) + 1) {value : R}
    (member : value ∈ values next first links) : value = current ∨ rank value < rank current := by
  induction links generalizing current with
  | nil =>
    have same : value = first := by simpa [values] using member
    exact .inl (same.trans chained.symm)
  | cons newest older ih =>
    obtain ⟨rfl, rest⟩ := chained
    have step := raises newest mem_cons_self
    rcases mem_cons.mp member with rfl | inside
    · exact .inl rfl
    · right
      rcases ih rest (fun link later => raises link (mem_cons_of_mem _ later)) inside with
        rfl | lower
      · omega
      · omega

end

theorem Chained.since {rank : R → Nat} {newer older : List L} {mark : R}
    (chained : Chained prev next first older mark)
    (raises : ∀ link ∈ older, rank (next link) = rank (prev link) + 1) {value : R}
    (member : value ∈ values next first (newer ++ older)) (late : rank mark ≤ rank value) :
    value = mark ∨ ∃ link ∈ newer, next link = value := by
  have before (inside : value ∈ values next first older) : value = mark := by
    rcases chained.le_current raises inside with same | lower
    · exact same
    · omega
  rcases mem_values.mp member with initial | ⟨link, inside, same⟩
  · exact .inl (before (mem_values.mpr (.inl initial)))
  · rcases mem_append.mp inside with new | old
    · exact .inr ⟨link, new, same⟩
    · exact .inl (before (mem_values.mpr (.inr ⟨link, old, same⟩)))

theorem Chained.rank_injective {rank : R → Nat} (chained : Chained prev next first links current)
    (raises : ∀ link ∈ links, rank (next link) = rank (prev link) + 1) {left right : R}
    (leftMember : left ∈ values next first links) (rightMember : right ∈ values next first links)
    (same : rank left = rank right) : left = right := by
  induction links generalizing current with
  | nil =>
    have leftFirst : left = first := by simpa [values] using leftMember
    have rightFirst : right = first := by simpa [values] using rightMember
    exact leftFirst.trans rightFirst.symm
  | cons newest older ih =>
    obtain ⟨rfl, rest⟩ := chained
    have step := raises newest mem_cons_self
    have later := fun link inside => raises link (mem_cons_of_mem newest inside)
    have below {value : R} (inside : value ∈ values next first older) :
        rank value < rank (next newest) := by
      rcases rest.le_current later inside with rfl | lower <;> omega
    rcases mem_cons.mp leftMember with rfl | leftOlder <;>
      rcases mem_cons.mp rightMember with rfl | rightOlder
    · rfl
    · have lower := below rightOlder
      omega
    · have lower := below leftOlder
      omega
    · exact ih rest later leftOlder rightOlder

end Chain
