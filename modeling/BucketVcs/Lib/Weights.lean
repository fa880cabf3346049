import Mathlib.Algebra.Order.BigOperators.Group.Finset
import Mathlib.Data.Finmap

/-! Finite maps to sizes, and the total size of a part of their keys. -/

namespace Weights

open Finmap Finset

variable {K : Type} [DecidableEq K]

abbrev Sizes (K : Type) := Finmap fun _ : K => Nat

def weight (m : Sizes K) (key : K) : Nat := (m.lookup key).getD 0

def total (keep : K → Prop) [DecidablePred keep] (m : Sizes K) : Nat :=
  ∑ key ∈ m.keys with keep key, weight m key

variable {m : Sizes K}

theorem weight_of_not_mem {key : K} (absent : key ∉ m) : weight m key = 0 := by
  rw [weight, lookup_eq_none.mpr absent]
  rfl

theorem weight_insert_of_ne {key other : K} (different : other ≠ key) (size : Nat) :
    weight (m.insert key size) other = weight m other := by
  rw [weight, weight, lookup_insert_of_ne _ different]

theorem weight_erase (m : Sizes K) (key : K) : weight (m.erase key) key = 0 := by
  rw [weight, lookup_erase]
  rfl

theorem weight_erase_of_ne {key other : K} (different : other ≠ key) :
    weight (m.erase key) other = weight m other := by
  rw [weight, weight, lookup_erase_ne different]

section Totals

variable (keep : K → Prop) [DecidablePred keep] {m m' : Sizes K} {key : K}

theorem total_eq_sum {keys : Finset K} (covers : m.keys ⊆ keys) :
    total keep m = ∑ key ∈ keys with keep key, weight m key := by
  apply sum_subset (filter_subset_filter keep covers)
  intro key inside outside
  apply weight_of_not_mem
  intro member
  apply outside
  exact mem_filter.mpr ⟨mem_keys.mpr member, (mem_filter.mp inside).2⟩

theorem total_of_eq_off (kept : keep key)
    (off : ∀ other, other ≠ key → weight m' other = weight m other) :
    total keep m' + weight m key = total keep m + weight m' key := by
  have member : key ∈ {other ∈ insert key (m.keys ∪ m'.keys) | keep other} :=
    mem_filter.mpr ⟨mem_insert_self .., kept⟩
  have left : m.keys ⊆ insert key (m.keys ∪ m'.keys) :=
    fun other inside => mem_insert_of_mem (mem_union_left _ inside)
  have right : m'.keys ⊆ insert key (m.keys ∪ m'.keys) :=
    fun other inside => mem_insert_of_mem (mem_union_right _ inside)
  have rest : ∑ other ∈ {other ∈ insert key (m.keys ∪ m'.keys) | keep other}.erase key,
      weight m' other = ∑ other ∈ {other ∈ insert key (m.keys ∪ m'.keys) | keep other}.erase key,
        weight m other :=
    sum_congr rfl fun other inside => off other (ne_of_mem_erase inside)
  rw [total_eq_sum keep left, total_eq_sum keep right, ← add_sum_erase _ _ member,
    ← add_sum_erase _ (weight m) member]
  omega

theorem total_congr (inside : ∀ key, keep key → weight m' key = weight m key) :
    total keep m' = total keep m := by
  have left : m.keys ⊆ m.keys ∪ m'.keys := subset_union_left
  have right : m'.keys ⊆ m.keys ∪ m'.keys := subset_union_right
  rw [total_eq_sum keep left, total_eq_sum keep right]
  apply sum_congr rfl
  intro key member
  exact inside key (mem_filter.mp member).2

theorem sum_groups {G : Type} [DecidableEq G] (group : K → G) {groups : Finset G}
    (covers : ∀ key ∈ m, keep key → group key ∈ groups) :
    ∑ g ∈ groups, total (fun key => keep key ∧ group key = g) m = total keep m := by
  unfold total
  rw [← sum_fiberwise_of_maps_to (g := group) (t := groups)]
  · apply sum_congr rfl
    intro g inside
    rw [filter_filter]
  · intro key inside
    obtain ⟨member, kept⟩ := mem_filter.mp inside
    exact covers key (mem_keys.mp member) kept

end Totals

end Weights
