import Mathlib.Data.Finset.Prod
import BucketVcs.Lib.Memo

/-! `MatchPath`: path patterns with `**`, matched segment by segment with a table of the states that
were evaluated. -/

namespace BucketVcs.Policy

open List Finset

abbrev Text := List UInt8

def slash : UInt8 := 0x2F

def doubleStar : Text := [0x2A, 0x2A]

/-- `path.ErrBadPattern`. -/
inductive BadPattern where
  | badPattern
  deriving DecidableEq, Repr

/-- `path.Match` of the standard library, for one pattern and one name. -/
abbrev PathMatch := Text → Text → Except BadPattern Bool

inductive MatchError where
  | emptyPattern
  | leadingSlash (pattern : Text)
  | trailingSlash (pattern : Text)
  | consecutiveSlashes (pattern : Text)
  | emptySegment (pattern : Text)
  | invalidSegment (segment pattern : Text)
  | tooManySegments (pattern : Text) (count : ℕ)
  | tooManyDoubleStars (pattern : Text) (count : ℕ)
  | emptyPath
  | badPattern
  | budgetExceeded
  | cumulativeBudgetExceeded (limit : ℕ)
  deriving DecidableEq, Repr

def MatchError.isBudget : MatchError → Bool
  | .budgetExceeded | .cumulativeBudgetExceeded _ => true
  | _ => false

def maxPathPatternDblStars : ℕ := 2

def maxPathPatternSegments : ℕ := 64

def maxPathMatchStates : ℕ := 64 * 1024

def maxCheckPathsMatchStates : ℕ := 256 * 1024

structure PathMatchBudget where
  used : ℕ
  limit : ℕ
  deriving DecidableEq, Repr

section Segments

variable (pathMatch : PathMatch) (patSegs pathSegs : List Text)

/-- The switch in `walk`, for one state. -/
def segmentStep : ℕ × ℕ → Memo.Body (ℕ × ℕ) (Except BadPattern Bool)
  | (patIdx, pathIdx) =>
    match patSegs[patIdx]? with
    | none => .done (.ok (pathIdx = pathSegs.length))
    | some segment =>
      if segment = doubleStar then
        if patIdx = patSegs.length - 1 then .done (.ok (pathIdx < pathSegs.length))
        else
          .call (patIdx + 1, pathIdx) fun
            | .ok false =>
              if pathIdx < pathSegs.length then .call (patIdx, pathIdx + 1) .done
              else .done (.ok false)
            | decided => .done decided
      else
        match pathSegs[pathIdx]? with
        | none => .done (.ok false)
        | some name =>
          match pathMatch segment name with
          | .error bad => .done (.error bad)
          | .ok false => .done (.ok false)
          | .ok true => .call (patIdx + 1, pathIdx + 1) .done

/-- The error of the given number of states, with what the aggregate has used before. -/
def overBudget (aggregate : Option PathMatchBudget) (states : ℕ) : Option MatchError :=
  if maxPathMatchStates < states then some .budgetExceeded
  else
    match aggregate with
    | none => none
    | some budget =>
      if budget.limit < budget.used + states then some (.cumulativeBudgetExceeded budget.limit)
      else none

/-- The evaluation of `walk(0, 0)`. A call has fewer segments left, so the depth is not met. -/
def walkSegments (aggregate : Option PathMatchBudget) :
    Except (Memo.Stop MatchError) (Except BadPattern Bool) ×
      Memo.Visit (ℕ × ℕ) (Except BadPattern Bool) :=
  Memo.walk (segmentStep pathMatch patSegs pathSegs) (overBudget aggregate)
    (patSegs.length + pathSegs.length + 1) (0, 0) .empty

def matchSegments (aggregate : Option PathMatchBudget) : Except MatchError Bool × ℕ :=
  let (outcome, visit) := walkSegments pathMatch patSegs pathSegs aggregate
  match outcome with
  | .ok (.ok matched) => (.ok matched, visit.states.length)
  | .ok (.error _) => (.error .badPattern, visit.states.length)
  | .error (.exceeded error) => (.error error, visit.states.length)
  | .error .exhausted => (.error .budgetExceeded, visit.states.length)

end Segments

section Patterns

variable (pathMatch : PathMatch)

def hasConsecutiveSlashes (pattern : Text) : Bool :=
  pattern.tails.any fun rest => [slash, slash].isPrefixOf rest

def checkSegments (pattern : Text) : List Text → Except MatchError Unit
  | [] => .ok ()
  | segment :: rest =>
    if segment = [] then .error (.emptySegment pattern)
    else if segment = doubleStar then checkSegments pattern rest
    else
      match pathMatch segment [] with
      | .error _ => .error (.invalidSegment segment pattern)
      | .ok _ => checkSegments pattern rest

def validatePathPatternSyntax (pattern : Text) : Except MatchError Unit :=
  if pattern = [] then .error .emptyPattern
  else if [slash].isPrefixOf pattern then .error (.leadingSlash pattern)
  else if [slash].isSuffixOf pattern then .error (.trailingSlash pattern)
  else if hasConsecutiveSlashes pattern then .error (.consecutiveSlashes pattern)
  else checkSegments pathMatch pattern (pattern.splitOn slash)

def validatePathPattern (pattern : Text) : Except MatchError Unit := do
  validatePathPatternSyntax pathMatch pattern
  let segments := pattern.splitOn slash
  if maxPathPatternSegments < segments.length then
    .error (.tooManySegments pattern segments.length)
  else if maxPathPatternDblStars < segments.count doubleStar then
    .error (.tooManyDoubleStars pattern (maxPathPatternDblStars + 1))
  else .ok ()

def matchPathWithBudget (pattern path : Text) (aggregate : Option PathMatchBudget) :
    Except MatchError Bool × ℕ :=
  match validatePathPatternSyntax pathMatch pattern with
  | .error error => (.error error, 0)
  | .ok () =>
    if path = [] then (.error .emptyPath, 0)
    else matchSegments pathMatch (pattern.splitOn slash) (path.splitOn slash) aggregate

end Patterns

/-! The matcher with its table against the plain recursion over slices, and against what a pattern
with `**` means. -/

variable (pathMatch : PathMatch)

def anySuffix (accepts : List Text → Except BadPattern Bool) : List Text → Except BadPattern Bool
  | [] => accepts []
  | name :: rest =>
    match accepts (name :: rest) with
    | .ok false => anySuffix accepts rest
    | decided => decided

def referenceMatchSegments : List Text → List Text → Except BadPattern Bool
  | [], path => .ok path.isEmpty
  | head :: rest, path =>
    if head = doubleStar then
      if rest.isEmpty then .ok !path.isEmpty else anySuffix (referenceMatchSegments rest) path
    else
      match path with
      | [] => .ok false
      | name :: names =>
        match pathMatch head name with
        | .error bad => .error bad
        | .ok false => .ok false
        | .ok true => referenceMatchSegments rest names

/-- The path splits into pieces: each `**` takes any number of segments, at least one if it is
last, and every other pattern segment matches one segment. -/
inductive Splits : List Text → List Text → Prop where
  | nil : Splits [] []
  | last {path : List Text} (nonempty : path ≠ []) : Splits [doubleStar] path
  | many {rest taken path : List Text} (more : rest ≠ []) (tail : Splits rest path) :
      Splits (doubleStar :: rest) (taken ++ path)
  | one {segment name : Text} {rest path : List Text} (single : segment ≠ doubleStar)
      (matched : pathMatch segment name = .ok true) (tail : Splits rest path) :
      Splits (segment :: rest) (name :: path)

variable {pathMatch}

section Meaning

variable {accepts : List Text → Except BadPattern Bool} {path : List Text} {result : Bool}
  {rest patSegs : List Text}

theorem anySuffix_ok (decided : anySuffix accepts path = .ok result) :
    (result = true → ∃ taken rest, path = taken ++ rest ∧ accepts rest = .ok true) ∧
      (result = false → ∀ taken rest, path = taken ++ rest → accepts rest = .ok false) := by
  induction path with
  | nil =>
    constructor
    · rintro rfl
      exact ⟨[], [], rfl, decided⟩
    · rintro rfl taken rest split
      obtain ⟨-, rfl⟩ := append_eq_nil_iff.mp split.symm
      exact decided
  | cons name rest ih =>
    simp only [anySuffix] at decided
    split at decided
    · rename_i first
      obtain ⟨found, missed⟩ := ih decided
      constructor
      · intro holds
        obtain ⟨taken, remaining, rfl, accepted⟩ := found holds
        exact ⟨name :: taken, remaining, rfl, accepted⟩
      · intro fails taken remaining split
        cases taken with
        | nil =>
          cases split
          exact first
        | cons head taken =>
          cases split
          exact missed fails taken remaining rfl
    · rename_i first
      constructor
      · rintro rfl
        exact ⟨[], name :: rest, rfl, decided⟩
      · rintro rfl
        exact absurd decided first

theorem splits_nil_iff : Splits pathMatch [] path ↔ path = [] := by
  constructor
  · intro splits
    cases splits
    rfl
  · rintro rfl
    exact .nil

theorem splits_last_iff : Splits pathMatch [doubleStar] path ↔ path ≠ [] := by
  constructor
  · intro splits
    cases splits with
    | last nonempty => exact nonempty
    | many more _ => exact absurd rfl more
    | one single _ _ => exact absurd rfl single
  · exact .last

theorem splits_star_iff (more : rest ≠ []) :
    Splits pathMatch (doubleStar :: rest) path ↔
      ∃ taken tail, path = taken ++ tail ∧ Splits pathMatch rest tail := by
  constructor
  · intro splits
    cases splits with
    | last _ => exact absurd rfl more
    | many _ tail => exact ⟨_, _, rfl, tail⟩
    | one single _ _ => exact absurd rfl single
  · rintro ⟨taken, tail, rfl, splits⟩
    exact .many more splits

theorem splits_one_iff {segment : Text} (single : segment ≠ doubleStar) :
    Splits pathMatch (segment :: rest) path ↔
      ∃ name tail, path = name :: tail ∧ pathMatch segment name = .ok true ∧
        Splits pathMatch rest tail := by
  constructor
  · intro splits
    cases splits with
    | last _ | many _ _ => exact absurd rfl single
    | one _ matched tail => exact ⟨_, _, rfl, matched, tail⟩
  · rintro ⟨name, tail, rfl, matched, splits⟩
    exact .one single matched splits

/-- Without an error, the plain recursion accepts exactly the paths that split. -/
theorem reference_ok_iff {pathSegs : List Text}
    (decided : referenceMatchSegments pathMatch patSegs pathSegs = .ok result) :
    result = true ↔ Splits pathMatch patSegs pathSegs := by
  induction patSegs generalizing pathSegs result with
  | nil =>
    simp only [referenceMatchSegments, Except.ok.injEq] at decided
    rw [splits_nil_iff, ← decided, List.isEmpty_iff]
  | cons head rest ih =>
    simp only [referenceMatchSegments] at decided
    by_cases star : head = doubleStar
    · subst star
      cases rest with
      | nil =>
        simp only [isEmpty_nil, if_true, Except.ok.injEq] at decided
        rw [splits_last_iff, ← decided, Bool.not_eq_true', isEmpty_eq_false_iff]
      | cons next others =>
        obtain ⟨found, missed⟩ := anySuffix_ok decided
        rw [splits_star_iff (cons_ne_nil _ _)]
        constructor
        · intro holds
          obtain ⟨taken, tail, split, accepted⟩ := found holds
          exact ⟨taken, tail, split, (ih accepted).mp rfl⟩
        · rintro ⟨taken, tail, split, splits⟩
          cases result with
          | true => rfl
          | false => exact (ih (missed rfl taken tail split)).mpr splits
    · simp only [star, if_false] at decided
      rw [splits_one_iff star]
      cases pathSegs with
      | nil =>
        cases decided
        simp
      | cons name names =>
        cases matched : pathMatch head name with
        | error bad => simp [matched] at decided
        | ok here =>
          cases here with
          | false =>
            simp only [matched, Except.ok.injEq] at decided
            subst decided
            constructor
            · intro impossible
              cases impossible
            · rintro ⟨_, _, same, accepted, -⟩
              cases same
              cases matched.symm.trans accepted
          | true =>
            simp only [matched] at decided
            rw [ih decided]
            constructor
            · intro splits
              exact ⟨name, names, rfl, matched, splits⟩
            · rintro ⟨_, _, same, -, splits⟩
              cases same
              exact splits

/-- A pattern segment that is malformed is so for every name, as `path.Match` documents. -/
def MalformedEverywhere (pathMatch : PathMatch) : Prop :=
  ∀ segment name bad, pathMatch segment name = .error bad → ∀ other, pathMatch segment other ≠ .ok true

theorem anySuffix_total (fine : ∀ rest, ∃ result, accepts rest = .ok result) :
    ∃ result, anySuffix accepts path = .ok result := by
  induction path with
  | nil => exact fine []
  | cons name rest ih =>
    obtain ⟨result, decided⟩ := fine (name :: rest)
    simp only [anySuffix, decided]
    cases result with
    | true => exact ⟨true, rfl⟩
    | false => exact ih

theorem reference_total (everywhere : MalformedEverywhere pathMatch)
    (splits : Splits pathMatch patSegs path) (pathSegs : List Text) :
    ∃ result, referenceMatchSegments pathMatch patSegs pathSegs = .ok result := by
  induction splits generalizing pathSegs with
  | nil | last _ => exact ⟨_, rfl⟩
  | @many rest taken path more _ ih =>
    have nonempty : rest.isEmpty = false := isEmpty_eq_false_iff.mpr more
    simp only [referenceMatchSegments, nonempty]
    exact anySuffix_total ih
  | @one segment name rest path single matched _ ih =>
    simp only [referenceMatchSegments, single]
    cases pathSegs with
    | nil => exact ⟨false, rfl⟩
    | cons other names =>
      cases here : pathMatch segment other with
      | error bad => exact absurd matched (everywhere segment other bad here name)
      | ok result =>
        cases result with
        | false => exact ⟨false, by simp [here]⟩
        | true =>
          obtain ⟨result, decided⟩ := ih names
          exact ⟨result, by simpa [here] using decided⟩

end Meaning

section Table

variable (pathMatch) (patSegs pathSegs : List Text)

def left : ℕ × ℕ → ℕ
  | (patIdx, pathIdx) => (patSegs.length - patIdx) + (pathSegs.length - pathIdx)

def InGrid : ℕ × ℕ → Prop
  | (patIdx, pathIdx) => patIdx ≤ patSegs.length ∧ pathIdx ≤ pathSegs.length

variable {patIdx pathIdx : ℕ} {rest : List Text}

theorem all_segmentStep {P : ℕ × ℕ → Prop}
    (skip : patIdx < patSegs.length → P (patIdx + 1, pathIdx))
    (stay : patIdx < patSegs.length → pathIdx < pathSegs.length → P (patIdx, pathIdx + 1))
    (both : patIdx < patSegs.length → pathIdx < pathSegs.length → P (patIdx + 1, pathIdx + 1)) :
    (segmentStep pathMatch patSegs pathSegs (patIdx, pathIdx)).All P := by
  simp only [segmentStep]
  cases here : patSegs[patIdx]? with
  | none => trivial
  | some segment =>
    have more : patIdx < patSegs.length := (List.getElem?_eq_some_iff.mp here).1
    simp only
    split
    · split
      · trivial
      · refine ⟨skip more, fun value => ?_⟩
        match value with
        | .error _ => trivial
        | .ok true => trivial
        | .ok false =>
          by_cases rest : pathIdx < pathSegs.length
          · simp only [rest]
            exact ⟨stay more rest, fun _ => trivial⟩
          · simp only [rest]
            trivial
    · cases there : pathSegs[pathIdx]? with
      | none => trivial
      | some name =>
        have rest : pathIdx < pathSegs.length := (List.getElem?_eq_some_iff.mp there).1
        simp only
        match pathMatch segment name with
        | .error _ => trivial
        | .ok false => trivial
        | .ok true => exact ⟨both more rest, fun _ => trivial⟩

theorem lowers_segmentStep (state : ℕ × ℕ) :
    (segmentStep pathMatch patSegs pathSegs state).All fun other =>
      left patSegs pathSegs other < left patSegs pathSegs state := by
  apply all_segmentStep <;> simp only [left] <;> omega

theorem stays_segmentStep (state : ℕ × ℕ) (inside : InGrid patSegs pathSegs state) :
    (segmentStep pathMatch patSegs pathSegs state).All (InGrid patSegs pathSegs) := by
  simp only [InGrid] at inside
  apply all_segmentStep <;> simp only [InGrid] <;> omega

variable {patSegs pathSegs}

theorem yields_star (more : rest ≠ []) (here : patSegs[patIdx]? = some doubleStar)
    (notLast : patIdx ≠ patSegs.length - 1)
    (skip : Memo.Yields (segmentStep pathMatch patSegs pathSegs)
      (segmentStep pathMatch patSegs pathSegs (patIdx + 1, pathIdx))
      (referenceMatchSegments pathMatch rest (pathSegs.drop pathIdx)))
    (stay : pathIdx < pathSegs.length → Memo.Yields (segmentStep pathMatch patSegs pathSegs)
      (segmentStep pathMatch patSegs pathSegs (patIdx, pathIdx + 1))
      (referenceMatchSegments pathMatch (doubleStar :: rest) (pathSegs.drop (pathIdx + 1)))) :
    Memo.Yields (segmentStep pathMatch patSegs pathSegs)
      (segmentStep pathMatch patSegs pathSegs (patIdx, pathIdx))
      (referenceMatchSegments pathMatch (doubleStar :: rest) (pathSegs.drop pathIdx)) := by
  have unfolded (path : List Text) : referenceMatchSegments pathMatch (doubleStar :: rest) path =
      anySuffix (referenceMatchSegments pathMatch rest) path := by
    have nonempty : rest.isEmpty = false := isEmpty_eq_false_iff.mpr more
    simp [referenceMatchSegments, nonempty]
  rw [unfolded] at stay ⊢
  simp only [segmentStep, here, notLast]
  refine .call skip ?_
  by_cases left : pathIdx < pathSegs.length
  · have slice := drop_eq_getElem_cons left
    rw [slice]
    simp only [anySuffix]
    cases referenceMatchSegments pathMatch rest (pathSegs[pathIdx] :: pathSegs.drop (pathIdx + 1)) with
    | error bad => exact .done
    | ok accepted =>
      cases accepted with
      | true => exact .done
      | false =>
        simp only [left]
        exact .call (stay left) .done
  · rw [drop_eq_nil_of_le (Nat.le_of_not_lt left)]
    simp only [anySuffix]
    cases referenceMatchSegments pathMatch rest [] with
    | error bad => exact .done
    | ok accepted =>
      cases accepted with
      | true => exact .done
      | false =>
        simp only [left]
        exact .done

theorem yields_one {segment : Text} (single : segment ≠ doubleStar)
    (here : patSegs[patIdx]? = some segment)
    (both : pathIdx < pathSegs.length → Memo.Yields (segmentStep pathMatch patSegs pathSegs)
      (segmentStep pathMatch patSegs pathSegs (patIdx + 1, pathIdx + 1))
      (referenceMatchSegments pathMatch rest (pathSegs.drop (pathIdx + 1)))) :
    Memo.Yields (segmentStep pathMatch patSegs pathSegs)
      (segmentStep pathMatch patSegs pathSegs (patIdx, pathIdx))
      (referenceMatchSegments pathMatch (segment :: rest) (pathSegs.drop pathIdx)) := by
  simp only [segmentStep, here, single, referenceMatchSegments]
  by_cases left : pathIdx < pathSegs.length
  · rw [drop_eq_getElem_cons left, List.getElem?_eq_getElem left]
    simp only
    cases pathMatch segment pathSegs[pathIdx] with
    | error bad => exact .done
    | ok matched =>
      cases matched with
      | false => exact .done
      | true => exact .call (both left) .done
  · rw [drop_eq_nil_of_le (Nat.le_of_not_lt left),
      List.getElem?_eq_none (Nat.le_of_not_lt left)]
    exact .done

theorem yields_reference (inside : InGrid patSegs pathSegs (patIdx, pathIdx)) :
    Memo.Yields (segmentStep pathMatch patSegs pathSegs)
      (segmentStep pathMatch patSegs pathSegs (patIdx, pathIdx))
      (referenceMatchSegments pathMatch (patSegs.drop patIdx) (pathSegs.drop pathIdx)) := by
  induction size : left patSegs pathSegs (patIdx, pathIdx) using Nat.strong_induction_on
    generalizing patIdx pathIdx with
  | _ size ih =>
    subst size
    obtain ⟨inPattern, inPath⟩ : patIdx ≤ patSegs.length ∧ pathIdx ≤ pathSegs.length := inside
    cases here : patSegs[patIdx]? with
    | none =>
      have ended : patSegs.drop patIdx = [] :=
        drop_eq_nil_of_le (List.getElem?_eq_none_iff.mp here)
      have final : (pathSegs.drop pathIdx).isEmpty = decide (pathIdx = pathSegs.length) := by
        rw [Bool.eq_iff_iff, List.isEmpty_iff, drop_eq_nil_iff, decide_eq_true_eq]
        omega
      rw [ended, segmentStep, here, referenceMatchSegments, final]
      exact .done
    | some segment =>
      obtain ⟨more, found⟩ := List.getElem?_eq_some_iff.mp here
      have slice : patSegs.drop patIdx = segment :: patSegs.drop (patIdx + 1) := by
        rw [← found]
        exact drop_eq_getElem_cons more
      rw [slice]
      by_cases star : segment = doubleStar
      · subst star
        by_cases last : patIdx = patSegs.length - 1
        · have ended : patSegs.drop (patIdx + 1) = [] := drop_eq_nil_of_le (by omega)
          have final : (!(pathSegs.drop pathIdx).isEmpty) = decide (pathIdx < pathSegs.length) := by
            rw [Bool.eq_iff_iff, Bool.not_eq_true', isEmpty_eq_false_iff, ne_eq,
              drop_eq_nil_iff, decide_eq_true_eq, not_le]
          simp only [ended, segmentStep, here, referenceMatchSegments, final]
          rw [if_pos last]
          exact .done
        · have more' : patSegs.drop (patIdx + 1) ≠ [] := by
            rw [ne_eq, drop_eq_nil_iff]
            omega
          refine yields_star pathMatch more' here last ?_ ?_
          · exact ih _ (by simp only [left]; omega) ⟨more, inPath⟩ rfl
          · intro rest
            have stay := ih _ (by simp only [left]; omega) ⟨inPattern, rest⟩ rfl
            rwa [slice] at stay
      · refine yields_one pathMatch star here ?_
        intro rest
        exact ih _ (by simp only [left]; omega) ⟨more, rest⟩ rfl

variable (patSegs pathSegs) (aggregate : Option PathMatchBudget)

theorem walkSegments_spec :
    Memo.Spec (segmentStep pathMatch patSegs pathSegs) (overBudget aggregate)
      (InGrid patSegs pathSegs) (segmentStep pathMatch patSegs pathSegs (0, 0)) .empty
      (walkSegments pathMatch patSegs pathSegs aggregate) := by
  apply Memo.walk_spec (lowers_segmentStep pathMatch patSegs pathSegs)
    (stays_segmentStep pathMatch patSegs pathSegs)
  · simp only [left]
    omega
  · exact ⟨Nat.zero_le _, Nat.zero_le _⟩
  · exact Memo.valid_empty

theorem states_walkSegments :
    (walkSegments pathMatch patSegs pathSegs aggregate).2.states.Nodup ∧
      ∀ state ∈ (walkSegments pathMatch patSegs pathSegs aggregate).2.states,
        InGrid patSegs pathSegs state := by
  have spec := walkSegments_spec pathMatch patSegs pathSegs aggregate
  generalize walkSegments pathMatch patSegs pathSegs aggregate = outcome at spec
  match outcome, spec with
  | (.ok result, visit), ⟨_, closed⟩ => exact ⟨closed.distinct, closed.within⟩
  | (.error stop, visit), ⟨_, kept⟩ => exact ⟨kept.distinct, kept.within⟩

theorem overBudget_isBudget {states : ℕ} {error : MatchError}
    (exceeded : overBudget aggregate states = some error) : error.isBudget = true := by
  unfold overBudget at exceeded
  split at exceeded
  · cases exceeded
    rfl
  · split at exceeded
    · cases exceeded
    · obtain ⟨_, same⟩ := Option.ite_none_right_eq_some.mp exceeded
      cases same
      rfl

theorem matchSegments_states :
    (matchSegments pathMatch patSegs pathSegs aggregate).2 =
      (walkSegments pathMatch patSegs pathSegs aggregate).2.states.length := by
  simp only [matchSegments]
  split <;> rfl

theorem length_le_grid {states : List (ℕ × ℕ)} (distinct : states.Nodup)
    (inside : ∀ state ∈ states, InGrid patSegs pathSegs state) :
    states.length ≤ (patSegs.length + 1) * (pathSegs.length + 1) := by
  have sub : states.toFinset ⊆
      .range (patSegs.length + 1) ×ˢ .range (pathSegs.length + 1) := by
    intro state member
    have here := inside state (List.mem_toFinset.mp member)
    simp only [InGrid] at here
    simp only [Finset.mem_product, Finset.mem_range]
    omega
  have card := card_le_card sub
  rwa [toFinset_card_of_nodup distinct, card_product, card_range,
    card_range] at card

/-- Without an exceeded budget, the result is that of the plain recursion. -/
theorem matchSegments_reference
    (within : ∀ error, (matchSegments pathMatch patSegs pathSegs aggregate).1 = .error error →
      error.isBudget = false) :
    (matchSegments pathMatch patSegs pathSegs aggregate).1 =
      (referenceMatchSegments pathMatch patSegs pathSegs).mapError fun _ => .badPattern := by
  have spec := walkSegments_spec pathMatch patSegs pathSegs aggregate
  have plain : Memo.Yields (segmentStep pathMatch patSegs pathSegs)
      (segmentStep pathMatch patSegs pathSegs (0, 0))
      (referenceMatchSegments pathMatch patSegs pathSegs) :=
    yields_reference pathMatch ⟨Nat.zero_le _, Nat.zero_le _⟩
  simp only [matchSegments] at within ⊢
  generalize walkSegments pathMatch patSegs pathSegs aggregate = outcome at spec within
  match outcome, spec with
  | (.ok result, visit), ⟨yields, _⟩ =>
    cases yields.unique plain
    cases referenceMatchSegments pathMatch patSegs pathSegs <;> rfl
  | (.error stop, visit), ⟨⟨n, error, stopped, exceeded⟩, _⟩ =>
    subst stopped
    have budget := overBudget_isBudget aggregate exceeded
    rw [within error rfl] at budget
    cases budget

end Table

/-- The matcher with its table agrees with the plain recursion unless a budget is exceeded, the
plain recursion accepts exactly the paths that split along the pattern, and no state is evaluated
twice. -/
theorem matcher_refines_recursion (pathMatch : PathMatch) (patSegs pathSegs : List Text)
    (aggregate : Option PathMatchBudget) :
    ((∀ error, (matchSegments pathMatch patSegs pathSegs aggregate).1 = .error error →
        error.isBudget = false) →
      (matchSegments pathMatch patSegs pathSegs aggregate).1 =
        (referenceMatchSegments pathMatch patSegs pathSegs).mapError fun _ => .badPattern) ∧
    (∀ result, referenceMatchSegments pathMatch patSegs pathSegs = .ok result →
      (result = true ↔ Splits pathMatch patSegs pathSegs)) ∧
    (MalformedEverywhere pathMatch →
      (referenceMatchSegments pathMatch patSegs pathSegs = .ok true ↔
        Splits pathMatch patSegs pathSegs)) ∧
    (walkSegments pathMatch patSegs pathSegs aggregate).2.states.Nodup ∧
    (matchSegments pathMatch patSegs pathSegs aggregate).2 =
      (walkSegments pathMatch patSegs pathSegs aggregate).2.states.length ∧
    (matchSegments pathMatch patSegs pathSegs aggregate).2 ≤
      (patSegs.length + 1) * (pathSegs.length + 1) := by
  obtain ⟨distinct, inside⟩ := states_walkSegments pathMatch patSegs pathSegs aggregate
  have counted := matchSegments_states pathMatch patSegs pathSegs aggregate
  refine ⟨matchSegments_reference pathMatch patSegs pathSegs aggregate, ?_, ?_, distinct, counted, ?_⟩
  · intro result decided
    exact reference_ok_iff decided
  · intro everywhere
    constructor
    · intro accepted
      exact (reference_ok_iff accepted).mp rfl
    · intro splits
      obtain ⟨result, decided⟩ := reference_total everywhere splits pathSegs
      rw [decided, (reference_ok_iff decided).mpr splits]
  · rw [counted]
    exact length_le_grid patSegs pathSegs distinct inside

def literally : PathMatch := fun pattern name => .ok (pattern = name)

theorem literally_everywhere : MalformedEverywhere literally := by
  intro segment name bad failed
  cases failed

/-- `a/**/c` against `a/b/b/c`. -/
theorem inner_star_matches :
    (matchSegments literally [[0x61], doubleStar, [0x63]] [[0x61], [0x62], [0x62], [0x63]] none).1 =
        .ok true ∧
      Splits literally [[0x61], doubleStar, [0x63]] [[0x61], [0x62], [0x62], [0x63]] := by
  obtain ⟨same, -, splits, -⟩ := matcher_refines_recursion literally [[0x61], doubleStar, [0x63]]
    [[0x61], [0x62], [0x62], [0x63]] none
  have evaluated : (matchSegments literally [[0x61], doubleStar, [0x63]]
      [[0x61], [0x62], [0x62], [0x63]] none).1 = .ok true := by decide +kernel
  have accepted : referenceMatchSegments literally [[0x61], doubleStar, [0x63]]
      [[0x61], [0x62], [0x62], [0x63]] = .ok true := by decide +kernel
  have settled := same fun error failed => by
    rw [evaluated] at failed
    cases failed
  rw [accepted] at settled
  exact ⟨settled, (splits literally_everywhere).mp accepted⟩

end BucketVcs.Policy
