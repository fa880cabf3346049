import Mathlib.Logic.Basic

/-! Taking successful `Except` computations apart. -/

namespace Results

variable {ε ε' α β : Type}

def require (check : Bool) (cause : ε) : Except ε Unit := if check then .ok () else .error cause

variable {check : Bool} {cause : ε} {first : Except ε α} {next : α → Except ε β} {result : β}
  {f : ε → ε'} {value : α}

-- By `rfl`, so that no equation of the library's definitions is generated here.
@[simp]
theorem ok_bind : (Except.ok value >>= next) = next value := rfl

@[simp]
theorem error_bind : (Except.error cause >>= next) = .error cause := rfl

theorem require_ok_iff : require check cause = .ok () ↔ check = true := by
  cases check with
  | false | true => simp [require]

theorem require_ok (passed : require check cause = .ok ()) :
    check = true := require_ok_iff.mp passed

theorem bind_ok_iff :
    (first >>= next) = .ok result ↔ ∃ value, first = .ok value ∧ next value = .ok result := by
  cases first with
  | error cause | ok value => simp

theorem bind_ok (done : (first >>= next) = .ok result) :
    ∃ value, first = .ok value ∧ next value = .ok result :=
  bind_ok_iff.mp done

theorem require_bind_ok_iff {next : Unit → Except ε β} :
    (require check cause >>= next) = .ok result ↔ check = true ∧ next () = .ok result := by
  rw [bind_ok_iff]
  constructor
  · rintro ⟨⟨⟩, passed, rest⟩
    exact ⟨require_ok passed, rest⟩
  · rintro ⟨passed, rest⟩
    exact ⟨(), require_ok_iff.mpr passed, rest⟩

@[simp]
theorem mapError_value : (Except.ok value : Except ε α).mapError f = .ok value := rfl

@[simp]
theorem mapError_cause : (Except.error cause : Except ε α).mapError f = .error (f cause) := rfl

theorem mapError_ok (done : first.mapError f = .ok value) : first = .ok value := by
  cases first with
  | error cause => cases done
  | ok held => cases done; rfl

theorem require_error_iff {other : ε} :
    require check cause = .error other ↔ check = false ∧ cause = other := by
  cases check <;> simp [require]

theorem bind_error_iff :
    first >>= next = .error cause ↔
      first = .error cause ∨ ∃ value, first = .ok value ∧ next value = .error cause := by
  cases first <;> simp

theorem mapError_error_iff {cause : ε'} :
    first.mapError f = .error cause ↔ ∃ early, first = .error early ∧ f early = cause := by
  cases first <;> simp

end Results
