import Mathlib.Data.List.Nodup

/-! A recursive function evaluated with a table of its results, and with a limit on how many of its
states may be evaluated, against the plain recursion. -/

namespace Memo

open List

/-- The body of a recursive function at one of its keys: a result, or a call and what follows. -/
inductive Body (K R : Type) where
  | done (result : R)
  | call (key : K) (rest : R → Body K R)

variable {K R E : Type}

def Body.All (P : K → Prop) : Body K R → Prop
  | .done _ => True
  | .call key rest => P key ∧ ∀ value, (rest value).All P

/-- The plain recursion. -/
inductive Yields (body : K → Body K R) : Body K R → R → Prop where
  | done {result : R} : Yields body (.done result) result
  | call {key : K} {rest : R → Body K R} {value result : R} (called : Yields body (body key) value)
      (after : Yields body (rest value) result) : Yields body (.call key rest) result

/-- The results so far, and the keys whose evaluation was begun, newest first. -/
structure Visit (K R : Type) where
  memo : List (K × R)
  states : List K

def Visit.empty : Visit K R := ⟨[], []⟩

/-- Why an evaluation stops: the limit, or the depth of the recursion. -/
inductive Stop (E : Type) where
  | exceeded (error : E)
  | exhausted

def Body.run (recurse : K → Visit K R → Except (Stop E) R × Visit K R) :
    Body K R → Visit K R → Except (Stop E) R × Visit K R
  | .done result, visit => (.ok result, visit)
  | .call key rest, visit =>
    match recurse key visit with
    | (.ok value, visit') => (rest value).run recurse visit'
    | (.error stop, visit') => (.error stop, visit')

/-- The recursion with the table. `exceeds` is the error of a number of states that is too large. -/
def walk [DecidableEq K] (body : K → Body K R) (exceeds : ℕ → Option E) :
    ℕ → K → Visit K R → Except (Stop E) R × Visit K R
  | 0, _, visit => (.error .exhausted, visit)
  | depth + 1, key, visit =>
    match visit.memo.lookup key with
    | some result => (.ok result, visit)
    | none =>
      match exceeds (visit.states.length + 1) with
      | some error => (.error (.exceeded error), { visit with states := key :: visit.states })
      | none =>
        match (body key).run (walk body exceeds depth) { visit with states := key :: visit.states } with
        | (.ok result, after) => (.ok result, { after with memo := (key, result) :: after.memo })
        | (.error stop, after) => (.error stop, after)

theorem Yields.unique {body : K → Body K R} {program : Body K R} {first second : R}
    (one : Yields body program first) (two : Yields body program second) : first = second := by
  induction one generalizing second with
  | done =>
    cases two with
    | done => rfl
  | call _ _ called after =>
    cases two with
    | call called' after' =>
      cases called called'
      exact after after'

section Correct

variable [DecidableEq K] {body : K → Body K R} {exceeds : ℕ → Option E} {rank : K → ℕ}
  {P : K → Prop}

/-- The table holds results of the plain recursion, no state was begun twice, and those still
open have at least the rank `bound`. -/
structure Valid (body : K → Body K R) (rank : K → ℕ) (P : K → Prop) (bound : ℕ)
    (visit : Visit K R) : Prop where
  sound : ∀ key result, visit.memo.lookup key = some result → Yields body (body key) result
  distinct : visit.states.Nodup
  within : ∀ key ∈ visit.states, P key
  opened : ∀ key ∈ visit.states, visit.memo.lookup key = none → bound ≤ rank key

/-- What an evaluation leaves in any case. -/
structure Kept (P : K → Prop) (visit visit' : Visit K R) : Prop where
  grows : visit.states <:+ visit'.states
  distinct : visit'.states.Nodup
  within : ∀ key ∈ visit'.states, P key

/-- What an evaluation leaves that has a result: it closed every state it began, and the limit
was not met. -/
structure Closed (body : K → Body K R) (exceeds : ℕ → Option E) (P : K → Prop)
    (visit visit' : Visit K R) : Prop extends Kept P visit visit' where
  sound : ∀ key result, visit'.memo.lookup key = some result → Yields body (body key) result
  opened : ∀ key ∈ visit'.states, visit'.memo.lookup key = none →
    key ∈ visit.states ∧ visit.memo.lookup key = none
  checked : ∀ n, visit.states.length < n → n ≤ visit'.states.length → exceeds n = none

/-- A result is that of the plain recursion; without one, the limit was the reason. -/
def Spec (body : K → Body K R) (exceeds : ℕ → Option E) (P : K → Prop) (program : Body K R)
    (visit : Visit K R) (outcome : Except (Stop E) R × Visit K R) : Prop :=
  match outcome.1 with
  | .ok result => Yields body program result ∧ Closed body exceeds P visit outcome.2
  | .error stop =>
    (∃ n error, stop = .exceeded error ∧ exceeds n = some error) ∧ Kept P visit outcome.2

variable {bound : ℕ} {visit visit' : Visit K R}

omit [DecidableEq K] in
theorem Kept.trans {third : Visit K R} (one : Kept P visit visit') (two : Kept P visit' third) :
    Kept P visit third :=
  ⟨one.grows.trans two.grows, two.distinct, two.within⟩

theorem Valid.closed (valid : Valid body rank P bound visit) : Closed body exceeds P visit visit where
  grows := suffix_refl _
  distinct := valid.distinct
  within := valid.within
  sound := valid.sound
  opened := fun _ member unknown => ⟨member, unknown⟩
  checked := fun _ less le => absurd less (Nat.not_lt.mpr le)

theorem valid_empty : Valid body rank P bound Visit.empty :=
  ⟨by simp [Visit.empty], nodup_nil, by simp [Visit.empty], by simp [Visit.empty]⟩

theorem Valid.mono (valid : Valid body rank P bound visit) {lower : ℕ} (le : lower ≤ bound) :
    Valid body rank P lower visit :=
  { valid with
    opened := fun key member unknown => Nat.le_trans le (valid.opened key member unknown) }

theorem Valid.after (valid : Valid body rank P bound visit)
    (closed : Closed body exceeds P visit visit') : Valid body rank P bound visit' where
  sound := closed.sound
  distinct := closed.distinct
  within := closed.within
  opened := fun key member unknown => by
    obtain ⟨before, open_⟩ := closed.opened key member unknown
    exact valid.opened key before open_

theorem Closed.trans {third : Visit K R} (one : Closed body exceeds P visit visit')
    (two : Closed body exceeds P visit' third) : Closed body exceeds P visit third where
  toKept := one.toKept.trans two.toKept
  sound := two.sound
  opened := fun key member unknown => by
    obtain ⟨before, open_⟩ := two.opened key member unknown
    exact one.opened key before open_
  checked := fun n less le => by
    by_cases early : n ≤ visit'.states.length
    · exact one.checked n less early
    · exact two.checked n (Nat.lt_of_not_le early) le

theorem run_spec {recurse : K → Visit K R → Except (Stop E) R × Visit K R}
    (calls : ∀ key visit, rank key < bound → P key → Valid body rank P (rank key + 1) visit →
      Spec body exceeds P (body key) visit (recurse key visit))
    {program : Body K R} (ranked : program.All fun key => rank key < bound) (inside : program.All P)
    (valid : Valid body rank P bound visit) :
    Spec body exceeds P program visit (program.run recurse visit) := by
  induction program generalizing visit with
  | done result => exact ⟨.done, valid.closed⟩
  | call key rest ih =>
    have called := calls key visit ranked.1 inside.1 (valid.mono ranked.1)
    simp only [Body.run]
    generalize recurse key visit = outcome at called
    match outcome, called with
    | (.error stop, after), called => exact called
    | (.ok value, after), ⟨yields, closed⟩ =>
      have rest := ih value (ranked.2 value) (inside.2 value) (valid.after closed)
      simp only
      generalize Body.run recurse _ after = final at rest
      match final, rest with
      | (.error stop, last), ⟨limit, kept⟩ => exact ⟨limit, closed.toKept.trans kept⟩
      | (.ok result, last), ⟨after, closes⟩ => exact ⟨.call yields after, closed.trans closes⟩

variable {key : K}

theorem not_mem_of_unknown (valid : Valid body rank P (rank key + 1) visit)
    (unknown : visit.memo.lookup key = none) : key ∉ visit.states := by
  intro member
  have := valid.opened key member unknown
  omega

theorem Valid.begin (valid : Valid body rank P (rank key + 1) visit)
    (unknown : visit.memo.lookup key = none) (inside : P key) :
    Valid body rank P (rank key) { visit with states := key :: visit.states } where
  sound := valid.sound
  distinct := nodup_cons.mpr ⟨not_mem_of_unknown valid unknown, valid.distinct⟩
  within := forall_mem_cons.mpr ⟨inside, valid.within⟩
  opened := by
    intro other member open_
    rcases mem_cons.mp member with rfl | before
    · exact Nat.le_refl _
    · exact Nat.le_of_succ_le (valid.opened other before open_)

theorem Closed.finish {result : R} (yields : Yields body (body key) result)
    (closed : Closed body exceeds P { visit with states := key :: visit.states } visit')
    (checked : exceeds (visit.states.length + 1) = none) :
    Closed body exceeds P visit { visit' with memo := (key, result) :: visit'.memo } where
  grows := (suffix_cons _ _).trans closed.grows
  distinct := closed.distinct
  within := closed.within
  sound := by
    intro other value found
    simp only [lookup_cons] at found
    split at found
    · rename_i same
      cases found
      rwa [eq_of_beq same]
    · exact closed.sound other value found
  opened := by
    intro other member unknown
    simp only [lookup_cons] at unknown
    split at unknown
    · cases unknown
    · rename_i different
      obtain ⟨before, open_⟩ := closed.opened other member unknown
      rcases mem_cons.mp before with rfl | earlier
      · simp at different
      · exact ⟨earlier, open_⟩
  checked := by
    intro n less le
    by_cases first : n = visit.states.length + 1
    · rw [first]
      exact checked
    · exact closed.checked n (by simp only [length_cons]; omega) le

/-- The recursion with the table meets the specification, if every call lowers the rank and the
depth is larger than the rank. -/
theorem walk_spec (lowers : ∀ key, (body key).All fun other => rank other < rank key)
    (stays : ∀ key, P key → (body key).All P) {depth : ℕ} (deep : rank key < depth)
    (inside : P key) (valid : Valid body rank P (rank key + 1) visit) :
    Spec body exceeds P (body key) visit (walk body exceeds depth key visit) := by
  induction depth generalizing key visit with
  | zero => exact absurd deep (Nat.not_lt_zero _)
  | succ depth ih =>
    simp only [walk]
    cases known : visit.memo.lookup key with
    | some result => exact ⟨valid.sound key result known, valid.closed⟩
    | none =>
      have begun := valid.begin known inside
      cases limit : exceeds (visit.states.length + 1) with
      | some error =>
        exact ⟨⟨_, error, rfl, limit⟩, suffix_cons _ _, begun.distinct, begun.within⟩
      | none =>
        have calls (other : K) (visit : Visit K R) (lower : rank other < rank key)
            (inner : P other) (here : Valid body rank P (rank other + 1) visit) :
            Spec body exceeds P (body other) visit (walk body exceeds depth other visit) :=
          ih (by omega) inner here
        have ran := run_spec calls (lowers key) (stays key inside) begun
        generalize Body.run _ _ _ = outcome at ran
        match outcome, ran with
        | (.error stop, after), ⟨why, kept⟩ =>
          exact ⟨why, (suffix_cons _ _).trans kept.grows, kept.distinct, kept.within⟩
        | (.ok result, after), ⟨yields, closed⟩ => exact ⟨yields, closed.finish yields limit⟩

end Correct

section Limits

variable [DecidableEq K] {body : K → Body K R} {exceeds exceeds' : ℕ → Option E}

omit [DecidableEq K] in
theorem run_grows {recurse : K → Visit K R → Except (Stop E) R × Visit K R}
    (calls : ∀ key visit, visit.states <:+ (recurse key visit).2.states) (program : Body K R)
    (visit : Visit K R) : visit.states <:+ (program.run recurse visit).2.states := by
  induction program generalizing visit with
  | done result => exact suffix_refl _
  | call key rest ih =>
    have called := calls key visit
    simp only [Body.run]
    generalize recurse key visit = outcome at called
    match outcome with
    | (.error stop, after) => exact called
    | (.ok value, after) => exact called.trans (ih value after)

theorem walk_grows (depth : ℕ) (key : K) (visit : Visit K R) :
    visit.states <:+ (walk body exceeds depth key visit).2.states := by
  induction depth generalizing key visit with
  | zero => exact suffix_refl _
  | succ depth ih =>
    simp only [walk]
    cases visit.memo.lookup key with
    | some result => exact suffix_refl _
    | none =>
      cases exceeds (visit.states.length + 1) with
      | some error => exact suffix_cons _ _
      | none =>
        have ran := run_grows ih (body key) { visit with states := key :: visit.states }
        generalize Body.run _ _ _ = outcome at ran
        match outcome with
        | (.error stop, after) => exact (suffix_cons _ _).trans ran
        | (.ok result, after) => exact (suffix_cons _ _).trans ran

/-- The limits agree on every number of states between two visits. -/
def Agree (exceeds exceeds' : ℕ → Option E) (visit visit' : Visit K R) : Prop :=
  ∀ n, visit.states.length < n → n ≤ visit'.states.length → exceeds n = exceeds' n

omit [DecidableEq K] in
theorem run_congr {recurse recurse' : K → Visit K R → Except (Stop E) R × Visit K R}
    (grows : ∀ key visit, visit.states <:+ (recurse key visit).2.states)
    (same : ∀ key visit, Agree exceeds exceeds' visit (recurse key visit).2 →
      recurse' key visit = recurse key visit)
    (program : Body K R) (visit : Visit K R)
    (agree : Agree exceeds exceeds' visit (program.run recurse visit).2) :
    program.run recurse' visit = program.run recurse visit := by
  induction program generalizing visit with
  | done result => rfl
  | call key rest ih =>
    have called := grows key visit
    have equal := same key visit
    simp only [Body.run] at agree ⊢
    generalize recurse key visit = outcome at called equal agree
    match outcome with
    | (.error stop, after) => rw [equal agree]
    | (.ok value, after) =>
      have later : after.states <:+ ((rest value).run recurse after).2.states :=
        run_grows grows (rest value) after
      rw [equal fun n less le => agree n less (Nat.le_trans le later.length_le)]
      exact ih value after fun n less le => agree n (Nat.lt_of_le_of_lt called.length_le less) le

theorem walk_congr (depth : ℕ) (key : K) (visit : Visit K R)
    (agree : Agree exceeds exceeds' visit (walk body exceeds depth key visit).2) :
    walk body exceeds' depth key visit = walk body exceeds depth key visit := by
  induction depth generalizing key visit with
  | zero => rfl
  | succ depth ih =>
    simp only [walk] at agree ⊢
    cases known : visit.memo.lookup key with
    | some result => rfl
    | none =>
      simp only [known] at agree
      cases limit : exceeds (visit.states.length + 1) with
      | some error =>
        simp only [limit] at agree
        rw [← agree (visit.states.length + 1) (by omega) (by simp), limit]
      | none =>
        simp only [limit] at agree
        have grown : key :: visit.states <:+
            (Body.run (walk body exceeds depth) (body key)
              { visit with states := key :: visit.states }).2.states :=
          run_grows (walk_grows depth) (body key) { visit with states := key :: visit.states }
        have reached : Agree exceeds exceeds' visit
            (Body.run (walk body exceeds depth) (body key)
              { visit with states := key :: visit.states }).2 := by
          generalize Body.run _ _ _ = outcome at agree
          match outcome with
          | (.error stop, after) => exact agree
          | (.ok result, after) => exact agree
        have inner : Body.run (walk body exceeds' depth) (body key)
              { visit with states := key :: visit.states } =
            Body.run (walk body exceeds depth) (body key)
              { visit with states := key :: visit.states } := by
          refine run_congr (walk_grows depth) ih (body key) _ ?_
          intro n less le
          exact reached n (Nat.lt_of_succ_lt less) le
        rw [← reached (visit.states.length + 1) (by omega) grown.length_le, limit]
        simp only [inner]

end Limits

end Memo
