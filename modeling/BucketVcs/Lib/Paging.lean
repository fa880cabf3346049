import Mathlib.Data.List.Basic

/-! A listing over several areas that is read page by page, while what it lists may
change between two pages. -/

namespace Paging

variable {A K : Type}

/-- The areas still to list, and the last key of the page before, if the first of them has
been begun. -/
structure Tour (A K : Type) where
  pending : List A
  last : Option K

section

variable (inside : A → K → Prop) (before : K → K → Prop)

def After (last : Option K) (key : K) : Prop := ∀ seen, last = some seen → before seen key

def Tour.Ahead (tour : Tour A K) (key : K) : Prop :=
  match tour.pending with
  | [] => False
  | area :: rest =>
    (inside area key ∧ After before tour.last key) ∨ ∃ later ∈ rest, inside later key

/-- One page: all keys there are after the page before, up to the last one it returns. -/
inductive Page (there : K → Prop) : Tour A K → List K → Tour A K → Prop where
  | more {area : A} {rest : List A} {last : Option K} {page : List K} {seen : K}
      (ends : seen ∈ page)
      (full : ∀ key, key ∈ page ↔
        there key ∧ inside area key ∧ After before last key ∧ ¬ before seen key) :
      Page there ⟨area :: rest, last⟩ page ⟨area :: rest, some seen⟩
  | final {area : A} {rest : List A} {last : Option K} {page : List K}
      (full : ∀ key, key ∈ page ↔ there key ∧ inside area key ∧ After before last key) :
      Page there ⟨area :: rest, last⟩ page ⟨rest, none⟩

end

variable {inside : A → K → Prop} {before : K → K → Prop} {there : K → Prop}
variable {tour tour' : Tour A K} {page : List K} {key : K}

theorem after_none : After before none key := by
  intro seen found
  cases found

theorem Tour.ahead_of_pending {area : A} {areas : List A} (pending : area ∈ areas)
    (member : inside area key) : (⟨areas, none⟩ : Tour A K).Ahead inside before key := by
  cases areas with
  | nil => cases pending
  | cons first rest =>
    rcases List.mem_cons.mp pending with rfl | later
    · exact .inl ⟨member, after_none⟩
    · exact .inr ⟨area, later, member⟩

theorem Page.passes (turned : Page inside before there tour page tour') (present : there key)
    (ahead : tour.Ahead inside before key) : key ∈ page ∨ tour'.Ahead inside before key := by
  cases turned with
  | @more area rest last page seen ends full =>
    rcases ahead with ⟨member, after⟩ | later
    · by_cases beyond : before seen key
      · refine .inr (.inl ⟨member, ?_⟩)
        intro other same
        cases same
        exact beyond
      · exact .inl ((full key).mpr ⟨present, member, after, beyond⟩)
    · exact .inr (.inr later)
  | @final area rest last page full =>
    rcases ahead with ⟨member, after⟩ | ⟨later, pending, member⟩
    · exact .inl ((full key).mpr ⟨present, member, after⟩)
    · exact .inr (Tour.ahead_of_pending pending member)

theorem Page.ahead_of_mem (turned : Page inside before there tour page tour')
    (member : key ∈ page) : there key ∧ tour.Ahead inside before key := by
  cases turned with
  | more ends full =>
    obtain ⟨present, area, after, -⟩ := (full key).mp member
    exact ⟨present, .inl ⟨area, after⟩⟩
  | final full =>
    obtain ⟨present, area, after⟩ := (full key).mp member
    exact ⟨present, .inl ⟨area, after⟩⟩

theorem Tour.Ahead.extend (trans : ∀ {a b c : K}, before a b → before b c → before a c)
    (ahead : tour.Ahead inside before key) {next : K} (order : before key next)
    (same : ∀ area, inside area key → inside area next) : tour.Ahead inside before next := by
  obtain ⟨pending, last⟩ := tour
  cases pending with
  | nil => exact ahead
  | cons area rest =>
    rcases ahead with ⟨member, after⟩ | ⟨later, pending, member⟩
    · exact .inl ⟨same area member, fun seen known => trans (after seen known) order⟩
    · exact .inr ⟨later, pending, same later member⟩

end Paging
