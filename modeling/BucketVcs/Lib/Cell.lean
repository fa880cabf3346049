import Mathlib.Tactic.Common

/-! One object of a store with conditional writes. Every write gives it a version that no
write gave before. -/

namespace Conditional

/-- The object, if there is one, and the version that the next write gives. -/
structure Cell (V : Type) where
  object : Option (V × ℕ)
  next : ℕ

inductive Fault where
  | alreadyExists
  | notFound
  | versionMismatch
  deriving DecidableEq, Repr

variable {V : Type}

namespace Cell

def put (cell : Cell V) (value : V) : Cell V := ⟨some (value, cell.next), cell.next + 1⟩

def putIfAbsent (cell : Cell V) (value : V) : Except Fault (ℕ × Cell V) :=
  match cell.object with
  | none => .ok (cell.next, cell.put value)
  | some _ => .error .alreadyExists

def putIfVersionMatches (cell : Cell V) (version : ℕ) (value : V) : Except Fault (ℕ × Cell V) :=
  match cell.object with
  | none => .error .notFound
  | some (_, current) =>
    if current = version then .ok (cell.next, cell.put value) else .error .versionMismatch

def deleteIfVersionMatches (cell : Cell V) (version : ℕ) : Except Fault (Cell V) :=
  match cell.object with
  | none => .error .notFound
  | some (_, current) =>
    if current = version then .ok ⟨none, cell.next⟩ else .error .versionMismatch

def Fresh (cell : Cell V) : Prop :=
  ∀ value version, cell.object = some (value, version) → version < cell.next

variable {cell after : Cell V} {value : V} {version given : ℕ}

theorem putIfAbsent_ok (ok : cell.putIfAbsent value = .ok (given, after)) :
    cell.object = none ∧ given = cell.next ∧ after = cell.put value := by
  unfold putIfAbsent at ok
  split at ok
  · rename_i absent
    cases ok
    exact ⟨absent, rfl, rfl⟩
  · cases ok

theorem putIfVersionMatches_ok (ok : cell.putIfVersionMatches version value = .ok (given, after)) :
    (∃ old, cell.object = some (old, version)) ∧ given = cell.next ∧ after = cell.put value := by
  unfold putIfVersionMatches at ok
  split at ok
  · cases ok
  · rename_i old current found
    split at ok
    · rename_i same
      cases ok
      exact ⟨⟨old, same ▸ found⟩, rfl, rfl⟩
    · cases ok

theorem deleteIfVersionMatches_ok (ok : cell.deleteIfVersionMatches version = .ok after) :
    (∃ old, cell.object = some (old, version)) ∧ after = ⟨none, cell.next⟩ := by
  unfold deleteIfVersionMatches at ok
  split at ok
  · cases ok
  · rename_i old current found
    split at ok
    · rename_i same
      cases ok
      exact ⟨⟨old, same ▸ found⟩, rfl⟩
    · cases ok

end Cell

/-- A step of a writer: it leaves the cell, or it may replace what is there and then puts one
of its own values or none. -/
inductive Changed (mayReplace own : V → Prop) (cell : Cell V) : Cell V → Prop where
  | left : Changed mayReplace own cell cell
  | put {value : V} (allowed : ∀ old version, cell.object = some (old, version) → mayReplace old)
      (mine : own value) : Changed mayReplace own cell (cell.put value)
  | deleted (allowed : ∀ old version, cell.object = some (old, version) → mayReplace old) :
      Changed mayReplace own cell ⟨none, cell.next⟩

namespace Changed

variable {mayReplace own : V → Prop} {cell after : Cell V}

section

variable (changed : Changed mayReplace own cell after)

include changed

theorem fresh (fresh : cell.Fresh) : after.Fresh := by
  cases changed with
  | left => exact fresh
  | put allowed mine =>
    intro value version found
    cases found
    exact Nat.lt_succ_self _
  | deleted allowed => exact fun value version found => (nomatch found)

theorem next_le : cell.next ≤ after.next := by
  cases changed with
  | left | deleted allowed => exact Nat.le_refl _
  | put allowed mine => exact Nat.le_succ _

theorem of_old {value : V} {version : ℕ} (old : version < cell.next)
    (found : after.object = some (value, version)) : cell.object = some (value, version) := by
  cases changed with
  | left => exact found
  | put allowed mine =>
    cases found
    exact absurd old (Nat.lt_irrefl _)
  | deleted allowed => cases found

theorem kept {value : V} {version : ℕ} (found : cell.object = some (value, version))
    (guarded : ¬mayReplace value) : after.object = some (value, version) := by
  cases changed with
  | left => exact found
  | put allowed mine | deleted allowed => exact absurd (allowed value version found) guarded

end

end Changed

end Conditional
