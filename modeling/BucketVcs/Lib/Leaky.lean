import Mathlib.Tactic.Linarith

/-! Leaky counters: a load that drains at a constant rate, goes up by one with a hit until it is
at a ceiling, and how many probes can find it below a limit. -/

namespace BucketVcs.Leaky

open List

variable {K : Type*} [Field K] [LinearOrder K]

structure Counter (K : Type*) where
  load : K
  since : K

inductive Beat where
  | probe
  | hit
  | reset
  deriving DecidableEq, Repr

namespace Counter

def level (rate : K) (c : Counter K) (now : K) : K := max 0 (c.load - rate * (now - c.since))

def beat (rate ceiling : K) (c : Counter K) (now : K) : Beat → Counter K
  | .probe => ⟨c.level rate now, now⟩
  | .hit => ⟨min ceiling (c.level rate now + 1), now⟩
  | .reset => ⟨0, now⟩

section Levels

variable {rate : K} (c : Counter K) {now later : K}

theorem level_nonneg (rate now : K) : 0 ≤ c.level rate now := le_max_left _ _

theorem level_self {load : K} (nonneg : 0 ≤ load) : level rate ⟨load, now⟩ now = load := by
  simp [level, nonneg]

theorem beat_probed (ceiling : K) (b : Beat) :
    beat rate ceiling ⟨c.level rate now, now⟩ now b = c.beat rate ceiling now b := by
  cases b <;> simp [beat, level_self (c.level_nonneg _ _)]

variable [IsStrictOrderedRing K]

theorem level_le (leaks : 0 ≤ rate) (order : c.since ≤ now) (nonneg : 0 ≤ c.load) :
    c.level rate now ≤ c.load := by
  apply max_le nonneg
  have loss := mul_nonneg leaks (sub_nonneg.mpr order)
  linarith

theorem load_le (rate now : K) : c.load ≤ c.level rate now + rate * (now - c.since) := by
  have above : c.load - rate * (now - c.since) ≤ c.level rate now := le_max_right _ _
  linarith

theorem level_level (leaks : 0 ≤ rate) (order : now ≤ later) :
    level rate ⟨c.level rate now, now⟩ later = c.level rate later := by
  have loss : 0 ≤ rate * (later - now) := mul_nonneg leaks (sub_nonneg.mpr order)
  unfold level
  rcases le_total 0 (c.load - rate * (now - c.since)) with above | below
  · rw [max_eq_right above, sub_sub, ← mul_add, sub_add_sub_cancel']
  · rw [max_eq_left below, max_eq_left, max_eq_left] <;> linarith

end Levels

structure Within (ceiling : K) (c : Counter K) : Prop where
  nonneg : 0 ≤ c.load
  below : c.load ≤ ceiling

@[simp] theorem beat_since (rate ceiling : K) (c : Counter K) (now : K) (b : Beat) :
    (c.beat rate ceiling now b).since = now := by
  cases b <;> rfl

theorem Within.beat [IsStrictOrderedRing K] {rate ceiling : K} (leaks : 0 ≤ rate) {c : Counter K}
    (within : c.Within ceiling) {now : K} (order : c.since ≤ now) (b : Beat) :
    (c.beat rate ceiling now b).Within ceiling := by
  have room : 0 ≤ ceiling := within.nonneg.trans within.below
  cases b with
  | probe => exact ⟨c.level_nonneg rate now, (c.level_le leaks order within.nonneg).trans within.below⟩
  | hit => exact ⟨le_min room (add_nonneg (c.level_nonneg rate now) zero_le_one), min_le_left _ _⟩
  | reset => exact ⟨le_rfl, room⟩

end Counter

def hitNext : List (K × Beat) → Bool
  | [] => false
  | (_, .probe) :: _ => false
  | (_, .hit) :: _ => true
  | (_, .reset) :: rest => hitNext rest

section Admission

variable (rate limit first last : K)

/-- The probes of a span of time that find less than the limit and that a hit follows; the
ceiling is one above the limit. -/
def admitted : Counter K → List (K × Beat) → ℕ
  | _, [] => 0
  | c, (now, b) :: rest =>
    (if b = .probe ∧ first ≤ now ∧ now ≤ last ∧ c.level rate now < limit ∧ hitNext rest = true then 1
      else 0) + admitted (c.beat rate (limit + 1) now b) rest

def Ordered (since : K) (beats : List (K × Beat)) : Prop :=
  List.IsChain (· ≤ ·) (since :: beats.map Prod.fst)

variable {rate limit first last}

variable {since : K} {c : Counter K} {beats : List (K × Beat)}

omit [Field K] in
theorem ordered_cons {now : K} {b : Beat} {rest : List (K × Beat)} :
    Ordered since ((now, b) :: rest) ↔ since ≤ now ∧ Ordered now rest := isChain_cons_cons

theorem admitted_late (ordered : Ordered since beats) (late : last < since) :
    admitted rate limit first last c beats = 0 := by
  induction beats generalizing c since with
  | nil => rfl
  | cons head rest ih =>
    obtain ⟨now, b⟩ := head
    obtain ⟨order, later⟩ := ordered_cons.mp ordered
    have beyond : last < now := late.trans_le order
    rw [admitted, ih later beyond]
    simp [not_le.mpr beyond]

theorem admitted_probed (c : Counter K) (now : K) (b : Beat) (rest : List (K × Beat)) :
    admitted rate limit first last ⟨c.level rate now, now⟩ ((now, b) :: rest) =
      admitted rate limit first last c ((now, b) :: rest) := by
  rw [admitted, admitted, Counter.beat_probed, Counter.level_self (c.level_nonneg _ _)]

variable [IsStrictOrderedRing K]

theorem waiting_add_load_le (within : c.Within (limit + 1)) {waits : Bool}
    (room : waits = true → c.load < limit) : (if waits then 1 else 0) + c.load ≤ limit + 1 := by
  cases waits with
  | false => simpa using within.below
  | true =>
    have below := room rfl
    simp only [if_true]
    linarith

/-- The balance inside the span: the probes still to be admitted, the one that waits for its hit,
and the load are paid for by the room under the ceiling and by what leaks until the end. -/
theorem admitted_add_load_le (leaks : 0 ≤ rate) (ordered : Ordered c.since beats)
    (started : first ≤ c.since) (running : c.since ≤ last) (within : c.Within (limit + 1))
    (unreset : ∀ now, (now, Beat.reset) ∈ beats → ¬(first ≤ now ∧ now ≤ last)) (waits : Bool)
    (waiting : waits = true → c.load < limit ∧ hitNext beats = true) :
    (admitted rate limit first last c beats : K) + (if waits then 1 else 0) + c.load ≤
      limit + 1 + rate * (last - c.since) := by
  induction beats generalizing c waits with
  | nil =>
    have paid := waiting_add_load_le within fun waits => (waiting waits).1
    have left : 0 ≤ rate * (last - c.since) := mul_nonneg leaks (sub_nonneg.mpr running)
    simp only [admitted, Nat.cast_zero]
    linarith
  | cons head rest ih =>
    obtain ⟨now, b⟩ := head
    obtain ⟨order, later⟩ := ordered_cons.mp ordered
    rcases lt_or_ge last now with late | inside
    · have paid := waiting_add_load_le within fun waits => (waiting waits).1
      have left : 0 ≤ rate * (last - c.since) := mul_nonneg leaks (sub_nonneg.mpr running)
      rw [admitted_late (ordered_cons.mpr ⟨le_rfl, later⟩) late, Nat.cast_zero]
      linarith
    · have leaked := c.load_le rate now
      have lower := c.level_le leaks order within.nonneg
      have within' := within.beat leaks order b
      have unreset' : ∀ now, (now, .reset) ∈ rest → ¬(first ≤ now ∧ now ≤ last) :=
        fun now member => unreset now (mem_cons_of_mem _ member)
      rw [admitted]
      cases b with
      | probe =>
        cases waits with
        | true => cases (waiting rfl).2
        | false =>
          -- the probe that is admitted waits from here on
          have rest_le := ih (c := c.beat rate (limit + 1) now .probe)
            later (started.trans order) inside within' unreset'
            (decide (c.level rate now < limit ∧ hitNext rest = true)) of_decide_eq_true
          simp only [Counter.beat, decide_eq_true_eq] at rest_le
          simp only [true_and, started.trans order, inside, Nat.cast_add, Nat.cast_ite,
            Nat.cast_one, Nat.cast_zero, Counter.beat, Bool.false_eq_true, if_false]
          linarith
      | hit =>
        have rest_le := ih (c := c.beat rate (limit + 1) now .hit)
          later (started.trans order) inside within' unreset' false (by simp)
        -- the hit counts whole if a probe waits for it, and never lowers the load
        have counted : (if waits then 1 else 0) + c.level rate now ≤
            min (limit + 1) (c.level rate now + 1) := by
          cases waits with
          | true =>
            have room := (waiting rfl).1
            exact le_min (by simp only [if_true]; linarith) (by simp only [if_true]; linarith)
          | false =>
            exact le_min (by simpa using lower.trans within.below) (by simp)
        simp only [Counter.beat, Bool.false_eq_true, if_false] at rest_le
        simp only [reduceCtorEq, false_and, if_false, Nat.cast_add, Nat.cast_zero, Counter.beat]
        linarith
      | reset => exact absurd ⟨started.trans order, inside⟩ (unreset now mem_cons_self)

/-- However long the history before the span: the limit and one more are admitted, and what leaks
during the span. -/
theorem admitted_le (leaks : 0 ≤ rate) (ordered : Ordered c.since beats) (span : first ≤ last)
    (within : c.Within (limit + 1))
    (unreset : ∀ now, (now, Beat.reset) ∈ beats → ¬(first ≤ now ∧ now ≤ last)) :
    (admitted rate limit first last c beats : K) ≤ limit + 1 + rate * (last - first) := by
  have room : 0 ≤ limit + 1 := within.nonneg.trans within.below
  have leak : 0 ≤ rate * (last - first) := mul_nonneg leaks (sub_nonneg.mpr span)
  induction beats generalizing c with
  | nil =>
    simp only [admitted, Nat.cast_zero]
    linarith
  | cons head rest ih =>
    obtain ⟨now, b⟩ := head
    obtain ⟨order, later⟩ := ordered_cons.mp ordered
    rcases lt_or_ge now first with early | started
    · rw [admitted, if_neg fun counted => absurd counted.2.1 (not_le.mpr early), Nat.zero_add]
      apply ih
      · rwa [Counter.beat_since]
      · exact within.beat leaks order b
      · exact fun now member => unreset now (mem_cons_of_mem _ member)
    rcases lt_or_ge last now with late | inside
    · rw [admitted_late (ordered_cons.mpr ⟨le_rfl, later⟩) late, Nat.cast_zero]
      linarith
    · -- the span starts here: the balance, from the counter as the first beat finds it
      have within' := within.beat leaks order .probe
      have balance := admitted_add_load_le leaks (c := ⟨c.level rate now, now⟩)
        (ordered_cons.mpr ⟨le_rfl, later⟩) started inside within' unreset false (by simp)
      rw [admitted_probed] at balance
      simp only [Bool.false_eq_true, if_false] at balance
      have loaded := c.level_nonneg rate now
      have shorter : rate * (last - now) ≤ rate * (last - first) :=
        mul_le_mul_of_nonneg_left (by linarith) leaks
      linarith

end Admission

end BucketVcs.Leaky
