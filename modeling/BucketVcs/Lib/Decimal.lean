import Mathlib.Algebra.Group.Nat.Defs
import Mathlib.Data.Nat.Log

/-! Numbers in decimal, with a fixed number of digits or filled up with zeros. -/

namespace Decimal

def digit (n : ℕ) : Char := Char.ofNat (48 + n)

theorem digit_toNat : ∀ n < 10, (digit n).toNat = 48 + n := by decide

theorem digit_isDigit : ∀ n < 10, (digit n).isDigit = true := by decide

def fixed : ℕ → ℕ → List Char
  | 0, _ => []
  | width + 1, n => fixed width (n / 10) ++ [digit (n % 10)]

def padded (width n : ℕ) : List Char :=
  if n < 10 ^ width then fixed width n else fixed (Nat.log 10 n + 1) n

def value (text : List Char) : ℕ := text.foldl (fun n c => 10 * n + (c.toNat - 48)) 0

@[simp] theorem length_fixed (width n : ℕ) : (fixed width n).length = width := by
  induction width generalizing n with
  | zero => rfl
  | succ width ih => simp [fixed, ih]

variable {width n : ℕ} {c : Char} {m : ℕ}

theorem isDigit_of_mem_fixed (mem : c ∈ fixed width n) : c.isDigit = true := by
  induction width generalizing n with
  | zero => simp [fixed] at mem
  | succ width ih =>
    rcases List.mem_append.mp mem with front | last
    · exact ih front
    · rw [List.mem_singleton.mp last]
      exact digit_isDigit _ (Nat.mod_lt n (by decide))

theorem value_fixed (fits : n < 10 ^ width) : value (fixed width n) = n := by
  induction width generalizing n with
  | zero => simp at fits; subst fits; rfl
  | succ width ih =>
    have front : n / 10 < 10 ^ width := Nat.div_lt_of_lt_mul (by rwa [Nat.pow_succ'] at fits)
    have last := digit_toNat (n % 10) (Nat.mod_lt n (by decide))
    have read : value (fixed (width + 1) n) =
        10 * value (fixed width (n / 10)) + ((digit (n % 10)).toNat - 48) := by
      simp [value, fixed]
    rw [read, ih front]
    omega

theorem fixed_injective (left : m < 10 ^ width) (right : n < 10 ^ width)
    (same : fixed width m = fixed width n) : m = n := by
  rw [← value_fixed left, same, value_fixed right]

theorem padded_eq_fixed (fits : n < 10 ^ width) : padded width n = fixed width n :=
  if_pos fits

theorem exists_padded (wide : 10 ^ width ≤ n) :
    ∃ more, padded width n = fixed (width + 1 + more) n ∧ n < 10 ^ (width + 1 + more) := by
  have enough : width ≤ Nat.log 10 n := Nat.le_log_of_pow_le (by decide) wide
  refine ⟨.log 10 n - width, ?_, ?_⟩
  · rw [padded, if_neg (by omega)]
    congr 1
    omega
  · have total : width + 1 + (Nat.log 10 n - width) = (Nat.log 10 n).succ := by omega
    rw [total]
    exact Nat.lt_pow_succ_log_self (by decide) n

theorem isDigit_of_mem_padded (mem : c ∈ padded width n) : c.isDigit = true := by
  unfold padded at mem
  split at mem
  · exact isDigit_of_mem_fixed mem
  · exact isDigit_of_mem_fixed mem

theorem length_padded_iff : (padded width n).length = width ↔ n < 10 ^ width := by
  constructor
  · intro size
    by_contra wide
    obtain ⟨more, written, -⟩ := exists_padded (not_lt.mp wide)
    rw [written, length_fixed] at size
    omega
  · intro fits
    rw [padded_eq_fixed fits, length_fixed]

theorem value_padded (width n : ℕ) : value (padded width n) = n := by
  by_cases fits : n < 10 ^ width
  · rw [padded_eq_fixed fits, value_fixed fits]
  · obtain ⟨more, written, fits⟩ := exists_padded (not_lt.mp fits)
    rw [written, value_fixed fits]

end Decimal
