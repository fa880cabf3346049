import Mathlib.Data.List.Basic
import Mathlib.Logic.Relation

/-! Acyclic graphs whose nodes have ordered parents, and the line of first parents. -/

/-- Every node has a list of parents, and a height that falls towards them. -/
structure Dag (N : Type) where
  parents : N → List N
  height : N → Nat
  falls : ∀ {n p : N}, p ∈ parents n → height p < height n

namespace Dag

open List

variable {N : Type} (dag : Dag N)

def Reaches (tip n : N) : Prop := Relation.ReflTransGen (fun m p => p ∈ dag.parents m) tip n

def first (n : N) : Option N := (dag.parents n).head?

def mainlineWithin : Nat → N → List N
  | 0, n => [n]
  | fuel + 1, n => n :: ((dag.first n).map (mainlineWithin fuel)).getD []

def mainline (n : N) : List N := dag.mainlineWithin (dag.height n) n

def reachesWithin [DecidableEq N] : Nat → N → N → Bool
  | 0, tip, n => tip = n
  | fuel + 1, tip, n => tip = n || (dag.parents tip).any (reachesWithin fuel · n)

def reaches [DecidableEq N] (tip n : N) : Bool := dag.reachesWithin (dag.height tip) tip n

variable {dag}

theorem first_mem {n p : N} (parent : dag.first n = some p) : p ∈ dag.parents n :=
  List.mem_of_mem_head? parent

variable {tip n : N}

theorem Reaches.height_le (reaches : dag.Reaches tip n) : dag.height n ≤ dag.height tip := by
  induction reaches with
  | refl => exact Nat.le_refl _
  | tail _ parent ih => exact Nat.le_trans (Nat.le_of_lt (dag.falls parent)) ih

theorem Reaches.antisymm {n m : N} (there : dag.Reaches n m) (back : dag.Reaches m n) : n = m := by
  rcases Relation.ReflTransGen.cases_head there with same | ⟨p, parent, rest⟩
  · exact same
  · have lower := dag.falls parent
    have between := (show dag.Reaches p m from rest).height_le
    have upper := back.height_le
    omega

theorem reaches_of_within [DecidableEq N] {fuel : Nat}
    (within : dag.reachesWithin fuel tip n = true) : dag.Reaches tip n := by
  induction fuel generalizing tip with
  | zero => exact of_decide_eq_true within ▸ .refl
  | succ fuel ih =>
    rw [reachesWithin, Bool.or_eq_true, decide_eq_true_iff, any_eq_true] at within
    rcases within with rfl | ⟨p, parent, below⟩
    · exact .refl
    · exact .head parent (ih below)

theorem reachesWithin_of_le [DecidableEq N] {fuel : Nat} (reach : dag.Reaches tip n)
    (enough : dag.height tip ≤ fuel) : dag.reachesWithin fuel tip n = true := by
  induction fuel generalizing tip with
  | zero =>
    rcases Relation.ReflTransGen.cases_head reach with rfl | ⟨p, parent, -⟩
    · exact decide_eq_true rfl
    · have lower := dag.falls parent
      omega
  | succ fuel ih =>
    rw [reachesWithin, Bool.or_eq_true, decide_eq_true_iff, any_eq_true]
    rcases Relation.ReflTransGen.cases_head reach with same | ⟨p, parent, rest⟩
    · exact .inl same
    · have lower := dag.falls parent
      exact .inr ⟨p, parent, ih rest (by omega)⟩

theorem reaches_iff [DecidableEq N] : dag.reaches tip n = true ↔ dag.Reaches tip n :=
  ⟨reaches_of_within, fun reach => reachesWithin_of_le reach (Nat.le_refl _)⟩

theorem first_of_height_zero {n : N} (zero : dag.height n = 0) : dag.first n = none := by
  cases parent : dag.first n with
  | none => rfl
  | some p =>
    have lower := dag.falls (first_mem parent)
    omega

attribute [local simp] mainlineWithin

theorem mainlineWithin_stable {fuel more : Nat} {n : N} (enough : dag.height n ≤ fuel)
    (also : dag.height n ≤ more) : dag.mainlineWithin fuel n = dag.mainlineWithin more n := by
  induction fuel generalizing more n with
  | zero =>
    have alone := first_of_height_zero (Nat.le_zero.mp enough)
    cases more <;> simp [alone]
  | succ fuel ih =>
    cases parent : dag.first n with
    | none => cases more <;> simp [parent]
    | some p =>
      have lower := dag.falls (first_mem parent)
      cases more with
      | zero => omega
      | succ more =>
        have rest : dag.mainlineWithin fuel p = dag.mainlineWithin more p :=
          ih (by omega) (by omega)
        simp [parent, rest]

theorem mainline_root {n : N} (root : dag.first n = none) : dag.mainline n = [n] := by
  unfold mainline
  cases dag.height n <;> simp [root]

theorem mainline_cons {n p : N} (parent : dag.first n = some p) :
    dag.mainline n = n :: dag.mainline p := by
  have lower := dag.falls (first_mem parent)
  obtain ⟨below, height⟩ : ∃ below, dag.height n = below + 1 := Nat.exists_eq_succ_of_ne_zero (by omega)
  have rest : dag.mainlineWithin below p = dag.mainline p :=
    mainlineWithin_stable (by omega) (Nat.le_refl _)
  rw [mainline, height]
  simp [parent, rest]

/-- Every node has a mainline that ends in a root. -/
@[elab_as_elim]
theorem by_mainline {motive : N → Prop} (root : ∀ n, dag.first n = none → motive n)
    (child : ∀ n p, dag.first n = some p → motive p → motive n) (n : N) : motive n := by
  induction height : dag.height n using Nat.strongRecOn generalizing n with
  | _ height' ih =>
    cases parent : dag.first n with
    | none => exact root n parent
    | some p =>
      exact child n p parent (ih _ (height ▸ dag.falls (first_mem parent)) p rfl)

theorem reaches_of_mem_mainline {n m : N} (member : m ∈ dag.mainline n) : dag.Reaches n m := by
  induction n using by_mainline with
  | root n root =>
    rw [mainline_root root, mem_singleton] at member
    exact member ▸ .refl
  | child n p parent ih =>
    rw [mainline_cons parent, mem_cons] at member
    rcases member with rfl | later
    · exact .refl
    · exact .head (first_mem parent) (ih later)

section Fork

variable (dag) (excluded : N → Bool)

def walk (tip : N) : List N := (dag.mainline tip).filter (!excluded ·)

def fork (tip : N) : Option N := (dag.mainline tip).find? excluded

variable {dag excluded}

/-- If no node of the walk changes a value against its first parent, the tip has the value of
the fork; a value that comes from nowhere is `base`. -/
theorem value_eq_fork {V : Type} (value : N → V) (base : V) {tip : N}
    (still : ∀ n ∈ dag.walk excluded tip, value n = ((dag.first n).map value).getD base) :
    value tip = ((dag.fork excluded tip).map value).getD base := by
  induction tip using by_mainline with
  | root n root =>
    unfold walk at still
    unfold fork
    rw [mainline_root root] at still ⊢
    cases out : excluded n with
    | true => simp [out]
    | false => simpa [out, root] using still
  | child n p parent ih =>
    unfold walk at still ih
    unfold fork at ih ⊢
    rw [mainline_cons parent] at still ⊢
    cases out : excluded n with
    | true => simp [out]
    | false =>
      rw [filter_cons_of_pos (by simp [out]), forall_mem_cons, parent] at still
      rw [List.find?_cons_of_neg (by simp [out])]
      exact still.1.trans (ih still.2)

theorem fork_of_mem {old tip : N} (reached : ∀ n, excluded n = true ↔ dag.Reaches old n)
    (member : old ∈ dag.mainline tip) : dag.fork excluded tip = some old := by
  have itself : excluded old = true := (reached old).mpr .refl
  induction tip using by_mainline with
  | root n root =>
    rw [mainline_root root, mem_singleton] at member
    rw [fork, mainline_root root, ← member, List.find?_cons_of_pos itself]
  | child n p parent ih =>
    cases out : excluded n with
    | true =>
      have same : n = old :=
        (reaches_of_mem_mainline member).antisymm ((reached n).mp out)
      rw [fork, mainline_cons parent, List.find?_cons_of_pos out, same]
    | false =>
      rw [mainline_cons parent, mem_cons] at member
      rcases member with rfl | later
      · rw [itself] at out
        cases out
      · rw [fork, mainline_cons parent, List.find?_cons_of_neg (by simp [out])]
        exact ih later

end Fork

end Dag
