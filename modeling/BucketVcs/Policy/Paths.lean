import Mathlib.Algebra.Ring.Nat
import BucketVcs.Lib.Results
import BucketVcs.Policy.Match

/-! `CheckPaths`: every changed path against every rule that applies to the ref, under one budget of
states, and what an accepted push says about the rules. -/

namespace BucketVcs.Policy

open List

/-- A row of `protected_paths`. -/
structure ProtectedPath where
  refnamePattern : Text
  pathPattern : Text
  deriving DecidableEq, Repr

inductive CheckError where
  | readRules
  | badPattern (pattern : Text) (error : MatchError)
  | blockedPath (refname matchedPattern matchedPath : Text)
  deriving DecidableEq, Repr

section Check

variable (pathMatch : PathMatch) (refname : Text)

def checkRule (rule : ProtectedPath) : List Text → PathMatchBudget → Except CheckError PathMatchBudget
  | [], budget => .ok budget
  | changed :: rest, budget =>
    match matchPathWithBudget pathMatch rule.pathPattern changed (some budget) with
    | (.error error, _) => .error (.badPattern rule.pathPattern error)
    | (.ok true, _) => .error (.blockedPath refname rule.pathPattern changed)
    | (.ok false, states) => checkRule rule rest { budget with used := budget.used + states }

/-- The outer loop. A rule whose refname pattern is malformed is passed over, as one that does not
match is. -/
def checkRules (changedPaths : List Text) :
    List ProtectedPath → PathMatchBudget → Except CheckError PathMatchBudget
  | [], budget => .ok budget
  | rule :: rest, budget =>
    match pathMatch rule.refnamePattern refname with
    | .ok true => do
      let budget ← checkRule pathMatch refname rule changedPaths budget
      checkRules changedPaths rest budget
    | .ok false => checkRules changedPaths rest budget
    | .error _ => checkRules changedPaths rest budget

def checkPaths (stored : Except Unit (List ProtectedPath)) (changedPaths : List Text) :
    Except CheckError Unit :=
  if changedPaths = [] then .ok ()
  else
    match stored with
    | .error _ => .error .readRules
    | .ok rules => do
      let _ ← checkRules pathMatch refname changedPaths rules ⟨0, maxCheckPathsMatchStates⟩
      .ok ()

def applicable (rules : List ProtectedPath) : List ProtectedPath :=
  rules.filter fun rule => pathMatch rule.refnamePattern refname = .ok true

def evaluate (rule : ProtectedPath) (changed : Text) : Except MatchError Bool × ℕ :=
  matchPathWithBudget pathMatch rule.pathPattern changed none

def evaluations (rules : List ProtectedPath) (changedPaths : List Text) :
    List (Except MatchError Bool × ℕ) :=
  (applicable pathMatch refname rules).flatMap fun rule => changedPaths.map (evaluate pathMatch rule)

/-- No evaluation matches or fails, and together they stay within the limit. -/
structure Clear (rules : List ProtectedPath) (changedPaths : List Text) : Prop where
  unmatched : ∀ evaluation ∈ evaluations pathMatch refname rules changedPaths, evaluation.1 = .ok false
  within : ((evaluations pathMatch refname rules changedPaths).map Prod.snd).sum ≤
    maxCheckPathsMatchStates

end Check

section Budget

variable {pathMatch : PathMatch} {patSegs pathSegs : List Text}

theorem overBudget_none_iff (aggregate : Option PathMatchBudget) (states : ℕ) :
    overBudget aggregate states = none ↔
      overBudget none states = none ∧
        ∀ budget, aggregate = some budget → budget.used + states ≤ budget.limit := by
  cases aggregate with
  | none => simp
  | some budget =>
    simp only [overBudget]
    by_cases large : maxPathMatchStates < states
    · simp [large]
    · simp [large]

variable {aggregate : Option PathMatchBudget} {result : Bool} {n : ℕ} {budget : PathMatchBudget}

theorem overBudget_of_ok
    (ended : matchSegments pathMatch patSegs pathSegs aggregate = (.ok result, n)) :
    (walkSegments pathMatch patSegs pathSegs aggregate).2.states.length = n ∧
      ∀ m, 0 < m → m ≤ n → overBudget aggregate m = none := by
  have counted := matchSegments_states pathMatch patSegs pathSegs aggregate
  rw [ended] at counted
  refine ⟨counted.symm, ?_⟩
  have spec := walkSegments_spec pathMatch patSegs pathSegs aggregate
  simp only [matchSegments] at ended
  generalize walkSegments pathMatch patSegs pathSegs aggregate = outcome at spec ended counted
  obtain ⟨stopped | decided, visit⟩ := outcome
  · cases stopped with
    | exceeded error => cases ended
    | exhausted => cases ended
  · cases decided with
    | error bad => cases ended
    | ok matched =>
      intro m positive le
      exact spec.2.checked m positive (by rw [← counted]; exact le)

theorem matchSegments_congr {other : Option PathMatchBudget}
    (ended : matchSegments pathMatch patSegs pathSegs aggregate = (.ok result, n))
    (allowed : ∀ m, 0 < m → m ≤ n → overBudget other m = none) :
    matchSegments pathMatch patSegs pathSegs other = (.ok result, n) := by
  obtain ⟨length, met⟩ := overBudget_of_ok ended
  have same : walkSegments pathMatch patSegs pathSegs other =
      walkSegments pathMatch patSegs pathSegs aggregate := by
    apply Memo.walk_congr
    intro m less le
    have positive : 0 < m := lt_of_le_of_lt (Nat.zero_le _) less
    have bounded : m ≤ n := length ▸ le
    rw [met m positive bounded, allowed m positive bounded]
  rw [← ended]
  simp only [matchSegments, same]

theorem matchSegments_budget (room : budget.used ≤ budget.limit) :
    matchSegments pathMatch patSegs pathSegs (some budget) = (.ok result, n) ↔
      matchSegments pathMatch patSegs pathSegs none = (.ok result, n) ∧
        budget.used + n ≤ budget.limit := by
  constructor
  · intro ended
    have met := (overBudget_of_ok ended).2
    constructor
    · apply matchSegments_congr ended
      intro m positive le
      exact ((overBudget_none_iff _ m).mp (met m positive le)).1
    · rcases Nat.eq_zero_or_pos n with rfl | positive
      · exact room
      · exact ((overBudget_none_iff _ n).mp (met n positive (le_refl n))).2 budget rfl
  · rintro ⟨ended, fits⟩
    have met := (overBudget_of_ok ended).2
    apply matchSegments_congr ended
    intro m positive le
    refine (overBudget_none_iff _ m).mpr ⟨met m positive le, ?_⟩
    intro other same
    cases same
    omega

theorem matchPath_budget (room : budget.used ≤ budget.limit) {pattern path : Text} :
    matchPathWithBudget pathMatch pattern path (some budget) = (.ok result, n) ↔
      matchPathWithBudget pathMatch pattern path none = (.ok result, n) ∧
        budget.used + n ≤ budget.limit := by
  simp only [matchPathWithBudget]
  cases validatePathPatternSyntax pathMatch pattern with
  | error error => simp
  | ok _ =>
    by_cases empty : path = []
    · simp [empty]
    · simp only [empty]
      exact matchSegments_budget room

end Budget

section Accepted

/-- No evaluation of the list matches or fails, and the budget has room for all of them. -/
def Fits (evaluated : List (Except MatchError Bool × ℕ)) (budget after : PathMatchBudget) : Prop :=
  (∀ evaluation ∈ evaluated, evaluation.1 = .ok false) ∧
    after = { budget with used := budget.used + (evaluated.map Prod.snd).sum } ∧
    after.used ≤ after.limit

variable {budget after : PathMatchBudget} {rule : ProtectedPath} {changed : Text}

theorem fits_nil (room : budget.used ≤ budget.limit) : Fits [] budget after ↔ after = budget := by
  simp only [Fits, not_mem_nil, false_implies, implies_true, true_and]
  constructor
  · intro both
    exact both.1
  · intro same
    exact ⟨same, same ▸ room⟩

theorem fits_cons {evaluation : Except MatchError Bool × ℕ}
    {evaluated : List (Except MatchError Bool × ℕ)} :
    Fits (evaluation :: evaluated) budget after ↔
      evaluation.1 = .ok false ∧ budget.used + evaluation.2 ≤ budget.limit ∧
        Fits evaluated { budget with used := budget.used + evaluation.2 } after := by
  simp only [Fits, forall_mem_cons, map_cons, sum_cons, ← Nat.add_assoc]
  constructor
  · rintro ⟨⟨first, others⟩, same, fits⟩
    subst same
    refine ⟨first, ?_, others, rfl, fits⟩
    exact le_trans (Nat.le_add_right _ _) fits
  · rintro ⟨first, _, others, same, fits⟩
    exact ⟨⟨first, others⟩, same, fits⟩

theorem fits_append {one two : List (Except MatchError Bool × ℕ)} :
    Fits (one ++ two) budget after ↔ ∃ between, Fits one budget between ∧ Fits two between after := by
  simp only [Fits, forall_mem_append, map_append, sum_append, ← Nat.add_assoc]
  constructor
  · rintro ⟨⟨first, second⟩, same, fits⟩
    subst same
    refine ⟨_, ⟨first, rfl, ?_⟩, second, rfl, fits⟩
    exact le_trans (Nat.le_add_right _ _) fits
  · rintro ⟨between, ⟨first, halfway, _⟩, second, same, fits⟩
    subst halfway
    exact ⟨⟨first, second⟩, same, fits⟩

variable {pathMatch : PathMatch} {refname : Text} {rules : List ProtectedPath}
  {changedPaths : List Text}

theorem checkRule_cons (room : budget.used ≤ budget.limit) :
    checkRule pathMatch refname rule (changed :: changedPaths) budget = .ok after ↔
      (evaluate pathMatch rule changed).1 = .ok false ∧
        budget.used + (evaluate pathMatch rule changed).2 ≤ budget.limit ∧
        checkRule pathMatch refname rule changedPaths
          { budget with used := budget.used + (evaluate pathMatch rule changed).2 } = .ok after := by
  have shared (n : ℕ) : matchPathWithBudget pathMatch rule.pathPattern changed (some budget) =
      (.ok false, n) ↔ evaluate pathMatch rule changed = (.ok false, n) ∧
        budget.used + n ≤ budget.limit := matchPath_budget room
  constructor
  · intro taken
    simp only [checkRule] at taken
    split at taken
    · cases taken
    · cases taken
    · rename_i n unmatched
      obtain ⟨alone, fits⟩ := (shared n).mp unmatched
      rw [alone]
      exact ⟨rfl, fits, taken⟩
  · rintro ⟨alone, fits, taken⟩
    have unmatched := (shared _).mpr ⟨Prod.ext alone rfl, fits⟩
    simp only [checkRule, unmatched]
    exact taken

theorem checkRule_ok_iff (room : budget.used ≤ budget.limit) :
    checkRule pathMatch refname rule changedPaths budget = .ok after ↔
      Fits (changedPaths.map (evaluate pathMatch rule)) budget after := by
  induction changedPaths generalizing budget with
  | nil =>
    rw [map_nil, fits_nil room]
    simp only [checkRule, Except.ok.injEq]
    exact eq_comm
  | cons changed rest ih =>
    rw [checkRule_cons room, map_cons, fits_cons]
    apply and_congr_right
    intro _
    apply and_congr_right
    intro fits
    exact ih fits

theorem applicable_cons (rule : ProtectedPath) (rules : List ProtectedPath) :
    applicable pathMatch refname (rule :: rules) =
      if pathMatch rule.refnamePattern refname = .ok true then
        rule :: applicable pathMatch refname rules
      else applicable pathMatch refname rules := by
  simp [applicable, filter_cons]

/-- The loops go through exactly if all evaluations fit, in whatever order they are made. -/
theorem checkRules_ok_iff (room : budget.used ≤ budget.limit) :
    checkRules pathMatch refname changedPaths rules budget = .ok after ↔
      Fits (evaluations pathMatch refname rules changedPaths) budget after := by
  induction rules generalizing budget with
  | nil =>
    simp only [checkRules, evaluations, applicable, filter_nil, flatMap_nil,
      fits_nil room, Except.ok.injEq]
    exact eq_comm
  | cons rule rest ih =>
    simp only [checkRules, evaluations, applicable_cons]
    cases ref : pathMatch rule.refnamePattern refname with
    | error bad => exact ih room
    | ok matched =>
      cases matched with
      | false => exact ih room
      | true =>
        simp only [if_true, flatMap_cons, fits_append, Results.bind_ok_iff]
        apply exists_congr
        intro between
        rw [checkRule_ok_iff room]
        apply and_congr_right
        intro fits
        exact ih fits.2.2

/-- An accepted list is empty or clear of every rule that applies. -/
theorem checkPaths_ok_iff :
    checkPaths pathMatch refname (.ok rules) changedPaths = .ok () ↔
      changedPaths = [] ∨ Clear pathMatch refname rules changedPaths := by
  by_cases empty : changedPaths = []
  · simp [checkPaths, empty]
  · have loops (after : PathMatchBudget) : checkRules pathMatch refname changedPaths rules
        ⟨0, maxCheckPathsMatchStates⟩ = .ok after ↔ _ := checkRules_ok_iff (Nat.zero_le _)
    simp only [checkPaths, empty, if_false, false_or, Results.bind_ok_iff, and_true, loops]
    constructor
    · rintro ⟨after, unmatched, same, within⟩
      subst same
      exact ⟨unmatched, by simpa using within⟩
    · intro clear
      exact ⟨_, clear.unmatched, rfl, by simpa using clear.within⟩

theorem clear_perm {rules' : List ProtectedPath} {changedPaths' : List Text}
    (sameRules : rules'.Perm rules) (samePaths : changedPaths'.Perm changedPaths)
    (clear : Clear pathMatch refname rules changedPaths) :
    Clear pathMatch refname rules' changedPaths' := by
  have perm : (evaluations pathMatch refname rules' changedPaths').Perm
      (evaluations pathMatch refname rules changedPaths) := by
    apply List.Perm.flatMap
    · exact sameRules.filter _
    · intro rule _
      exact samePaths.map _
  constructor
  · intro evaluation member
    exact clear.unmatched evaluation (perm.mem_iff.mp member)
  · rw [(perm.map Prod.snd).sum_eq]
    exact clear.within

theorem Clear.evaluate_eq (clear : Clear pathMatch refname rules changedPaths)
    (stored : rule ∈ rules) (applies : pathMatch rule.refnamePattern refname = .ok true)
    (member : changed ∈ changedPaths) : (evaluate pathMatch rule changed).1 = .ok false := by
  apply clear.unmatched
  apply mem_flatMap.mpr
  refine ⟨rule, ?_, mem_map_of_mem member⟩
  exact mem_filter.mpr ⟨stored, by simp [applies]⟩

end Accepted

section Closed

variable (pathMatch : PathMatch) (refname : Text) (rules : List ProtectedPath)
  (changedPaths : List Text)

def PathMatches (pattern path : Text) : Prop :=
  path ≠ [] ∧ Splits pathMatch (pattern.splitOn slash) (path.splitOn slash)

def Accepts : Prop := checkPaths pathMatch refname (.ok rules) changedPaths = .ok ()

/-- What acceptance is meant to say: no rule for the ref matches a changed path, no evaluation
failed or ran out of its budget, no pattern is malformed, and the order did not matter. -/
structure FailsClosed : Prop where
  unmatched : Accepts pathMatch refname rules changedPaths → ∀ rule ∈ rules,
    pathMatch rule.refnamePattern refname = .ok true → ∀ changed ∈ changedPaths,
      ¬ PathMatches pathMatch rule.pathPattern changed
  evaluated : Accepts pathMatch refname rules changedPaths → ∀ rule ∈ rules,
    pathMatch rule.refnamePattern refname = .ok true → ∀ changed ∈ changedPaths, ∀ error,
      (evaluate pathMatch rule changed).1 ≠ .error error
  within : Accepts pathMatch refname rules changedPaths →
    ((evaluations pathMatch refname rules changedPaths).map Prod.snd).sum ≤ maxCheckPathsMatchStates
  pathPatterns : Accepts pathMatch refname rules changedPaths → ∀ rule ∈ rules,
    pathMatch rule.refnamePattern refname = .ok true → ∀ error,
      validatePathPatternSyntax pathMatch rule.pathPattern ≠ .error error
  refnamePatterns : Accepts pathMatch refname rules changedPaths → ∀ rule ∈ rules, ∀ bad,
    pathMatch rule.refnamePattern refname ≠ .error bad
  unordered : ∀ rules' changedPaths', rules'.Perm rules → changedPaths'.Perm changedPaths →
    (Accepts pathMatch refname rules' changedPaths' ↔ Accepts pathMatch refname rules changedPaths)

/-- No refname pattern is malformed, and no path pattern of a rule for the ref. -/
def WellFormed : Prop :=
  ∀ rule ∈ rules, (∀ bad, pathMatch rule.refnamePattern refname ≠ .error bad) ∧
    (pathMatch rule.refnamePattern refname = .ok true →
      ∀ error, validatePathPatternSyntax pathMatch rule.pathPattern ≠ .error error)

variable {pathMatch refname rules changedPaths}

theorem not_matches_of_evaluate {rule : ProtectedPath} {changed : Text}
    (unmatched : (evaluate pathMatch rule changed).1 = .ok false) :
    ¬ PathMatches pathMatch rule.pathPattern changed := by
  rintro ⟨nonempty, splits⟩
  simp only [evaluate, matchPathWithBudget] at unmatched
  split at unmatched
  · cases unmatched
  · simp only [nonempty, if_false] at unmatched
    have same := matchSegments_reference pathMatch (rule.pathPattern.splitOn slash)
      (changed.splitOn slash) none (by simp [unmatched])
    rw [unmatched] at same
    cases decided : referenceMatchSegments pathMatch (rule.pathPattern.splitOn slash)
        (changed.splitOn slash) with
    | error bad =>
      rw [decided] at same
      cases same
    | ok result =>
      rw [decided] at same
      cases same
      exact absurd ((reference_ok_iff decided).mpr splits) (by decide)

theorem accepts_perm {rules' : List ProtectedPath} {changedPaths' : List Text}
    (sameRules : rules'.Perm rules) (samePaths : changedPaths'.Perm changedPaths)
    (accepted : Accepts pathMatch refname rules changedPaths) :
    Accepts pathMatch refname rules' changedPaths' := by
  apply checkPaths_ok_iff.mpr
  rcases checkPaths_ok_iff.mp accepted with empty | clear
  · subst empty
    exact .inl samePaths.eq_nil
  · exact .inr (clear_perm sameRules samePaths clear)

theorem evaluations_nil : evaluations pathMatch refname rules [] = [] := by
  apply flatMap_eq_nil_iff.mpr
  intro rule _
  rfl

theorem failsClosed_of_patterns
    (formed : Accepts pathMatch refname rules changedPaths → WellFormed pathMatch refname rules) :
    FailsClosed pathMatch refname rules changedPaths where
  unmatched := by
    intro accepted rule stored applies changed member
    rcases checkPaths_ok_iff.mp accepted with empty | clear
    · subst empty
      exact absurd member not_mem_nil
    · exact not_matches_of_evaluate (clear.evaluate_eq stored applies member)
  evaluated := by
    intro accepted rule stored applies changed member error
    rcases checkPaths_ok_iff.mp accepted with empty | clear
    · subst empty
      exact absurd member not_mem_nil
    · rw [clear.evaluate_eq stored applies member]
      simp
  within := by
    intro accepted
    rcases checkPaths_ok_iff.mp accepted with empty | clear
    · subst empty
      rw [evaluations_nil]
      exact Nat.zero_le _
    · exact clear.within
  pathPatterns := fun accepted rule stored => (formed accepted rule stored).2
  refnamePatterns := fun accepted rule stored => (formed accepted rule stored).1
  unordered := by
    intro rules' changedPaths' sameRules samePaths
    exact ⟨accepts_perm sameRules.symm samePaths.symm, accepts_perm sameRules samePaths⟩

/-- The check fails closed exactly if no pattern is malformed, or if there is a changed path and the
rules with a well-formed refname pattern refuse by themselves. -/
theorem paths_fail_closed_iff (pathMatch : PathMatch) (refname : Text) (rules : List ProtectedPath)
    (changedPaths : List Text) :
    FailsClosed pathMatch refname rules changedPaths ↔
      WellFormed pathMatch refname rules ∨
        changedPaths ≠ [] ∧ ¬ Clear pathMatch refname rules changedPaths := by
  constructor
  · intro closed
    by_cases accepted : Accepts pathMatch refname rules changedPaths
    · left
      intro rule stored
      exact ⟨closed.refnamePatterns accepted rule stored, closed.pathPatterns accepted rule stored⟩
    · right
      have refused := mt checkPaths_ok_iff.mpr accepted
      exact not_or.mp refused
  · intro condition
    apply failsClosed_of_patterns
    intro accepted
    rcases condition with formed | ⟨nonempty, refused⟩
    · exact formed
    · rcases checkPaths_ok_iff.mp accepted with empty | clear
      · exact absurd empty nonempty
      · exact absurd clear refused

def unclosed : PathMatch := fun pattern name =>
  if pattern = [0x5B] then .error .badPattern else .ok (pattern = name)

/-- A rule for the refs `[` and the path `a`: a push that changes `a` is accepted. -/
theorem malformed_refname_accepted :
    Accepts unclosed [0x6D] [⟨[0x5B], [0x61]⟩] [[0x61]] ∧
      unclosed [0x5B] [0x6D] = .error .badPattern ∧
      ¬ FailsClosed unclosed [0x6D] [⟨[0x5B], [0x61]⟩] [[0x61]] := by
  have accepted : Accepts unclosed [0x6D] [⟨[0x5B], [0x61]⟩] [[0x61]] := by
    show checkPaths unclosed [0x6D] (.ok [⟨[0x5B], [0x61]⟩]) [[0x61]] = .ok ()
    decide +kernel
  refine ⟨accepted, rfl, ?_⟩
  intro closed
  exact closed.refnamePatterns accepted _ (mem_singleton_self _) .badPattern rfl

end Closed

end BucketVcs.Policy
