import Mathlib.Data.List.Basic

/-! Finite runs of a labelled step relation. A run keeps every event it went
through, so that assumptions about the environment are predicates on events and
a safety statement can speak about each step taken. -/

namespace Transition

variable {S L : Type}

structure Event (S L : Type) where
  pre : S
  label : L
  post : S

/-- `Run step start events s`: the steps in `events`, newest first, lead from
`start` to `s`. -/
inductive Run (step : S → L → S → Prop) (start : S) : List (Event S L) → S → Prop where
  | nil : Run step start [] start
  | next {events : List (Event S L)} {s s' : S} {l : L}
      (before : Run step start events s) (taken : step s l s') :
      Run step start (⟨s, l, s'⟩ :: events) s'

variable {step : S → L → S → Prop} {start : S}

variable {I : S → Prop} {allowed : Event S L → Prop} {events : List (Event S L)} {s : S}
  {e : Event S L}

/-- The invariant rule: what holds at the start and is kept by every step the
environment assumption `allowed` admits holds at the end of each admitted run. -/
theorem Run.invariant (init : I start)
    (keep : ∀ s l s', I s → allowed ⟨s, l, s'⟩ → step s l s' → I s') (run : Run step start events s)
    (admitted : ∀ e ∈ events, allowed e) : I s := by
  induction run with
  | nil => exact init
  | next before taken ih =>
    have earlier := ih fun e member => admitted e (List.mem_cons_of_mem _ member)
    exact keep _ _ _ earlier (admitted _ List.mem_cons_self) taken

theorem Run.before_event (run : Run step start events s) (member : e ∈ events) :
    step e.pre e.label e.post ∧
      ∃ earlier, Run step start earlier e.pre ∧ ∀ x ∈ earlier, x ∈ events := by
  induction run with
  | nil => cases member
  | @next events s s' l before taken ih =>
    rcases List.mem_cons.mp member with rfl | older
    · exact ⟨taken, events, before, fun x inside => List.mem_cons_of_mem _ inside⟩
    · obtain ⟨stepped, earlier, reached, sub⟩ := ih older
      exact ⟨stepped, earlier, reached, fun x inside => List.mem_cons_of_mem _ (sub x inside)⟩

theorem Run.split {later earlier : List (Event S L)}
    (run : Run step start (later ++ e :: earlier) s) :
    step e.pre e.label e.post ∧ Run step start earlier e.pre ∧ Run step e.post later s := by
  induction later generalizing s with
  | nil =>
    cases run with
    | next before taken => exact ⟨taken, before, .nil⟩
  | cons last later ih =>
    cases run with
    | next before taken =>
      obtain ⟨stepped, reached, after⟩ := ih before
      exact ⟨stepped, reached, after.next taken⟩

/-- The event rule: a property that each admitted step has from every state of the
invariant holds of every event of an admitted run. -/
theorem Run.every_event {holds : Event S L → Prop} (init : I start)
    (keep : ∀ s l s', I s → allowed ⟨s, l, s'⟩ → step s l s' → I s')
    (stepHolds : ∀ s l s', I s → allowed ⟨s, l, s'⟩ → step s l s' → holds ⟨s, l, s'⟩)
    (run : Run step start events s) (admitted : ∀ e ∈ events, allowed e) :
    ∀ e ∈ events, holds e := by
  intro e member
  obtain ⟨stepped, earlier, reached, sub⟩ := run.before_event member
  have here : I e.pre := reached.invariant init keep fun x inside => admitted x (sub x inside)
  exact stepHolds _ _ _ here (admitted e member) stepped

/-- The exact rule: if from every state of the invariant the admitted steps are those that
keep it, a run stays inside the invariant exactly if all its steps are admitted. -/
theorem Run.kept_iff (init : I start)
    (exact_step : ∀ s l s', I s → step s l s' → (I s' ↔ allowed ⟨s, l, s'⟩))
    (run : Run step start events s) : (∀ e ∈ events, I e.post) ↔ ∀ e ∈ events, allowed e := by
  induction run with
  | nil => simp
  | @next events s s' l before taken ih =>
    have reached (kept : ∀ e ∈ events, I e.post) : I s := by
      cases before with
      | nil => exact init
      | next earlier stepped => exact kept _ List.mem_cons_self
    simp only [List.forall_mem_cons]
    constructor
    · rintro ⟨last, kept⟩
      exact ⟨(exact_step _ _ _ (reached kept) taken).mp last, ih.mp kept⟩
    · rintro ⟨last, admitted⟩
      have kept := ih.mpr admitted
      exact ⟨(exact_step _ _ _ (reached kept) taken).mpr last, kept⟩

theorem Run.backward {K : S → Prop} (back : ∀ s l s', step s l s' → K s' → K s)
    (run : Run step start events s) (final : K s) : ∀ e ∈ events, K e.pre ∧ K e.post := by
  induction run with
  | nil => simp
  | next before taken ih =>
    have earlier := back _ _ _ taken final
    intro e member
    rcases List.mem_cons.mp member with rfl | older
    · exact ⟨earlier, final⟩
    · exact ih earlier e older

theorem Run.mono {step' : S → L → S → Prop} (wider : ∀ s l s', step s l s' → step' s l s')
    (run : Run step start events s) : Run step' start events s := by
  induction run with
  | nil => exact .nil
  | next before taken ih => exact ih.next (wider _ _ _ taken)

section Play

variable (next : S → L → Option S)

def play : S → List (Event S L) → List L → Option (List (Event S L) × S)
  | s, events, [] => some (events, s)
  | s, events, l :: rest =>
    match next s l with
    | none => none
    | some s' => play s' (⟨s, l, s'⟩ :: events) rest

theorem Run.of_play {start : S} {labels : List L} {events events' : List (Event S L)} {s s' : S}
    (run : Run (fun s l s' => next s l = some s') start events s)
    (played : play next s events labels = some (events', s')) :
    Run (fun s l s' => next s l = some s') start events' s' := by
  induction labels generalizing s events with
  | nil =>
    cases played
    exact run
  | cons l rest ih =>
    simp only [play] at played
    cases taken : next s l with
    | none =>
      rw [taken] at played
      cases played
    | some after =>
      rw [taken] at played
      exact ih (run.next taken) played

theorem Run.exists_of_play (start : S) (labels : List L) {P : List (Event S L) → S → Prop}
    [∀ events s, Decidable (P events s)]
    (found : (play next start [] labels).any (fun (events, s) => P events s) = true) :
    ∃ events s, Run (fun s l s' => next s l = some s') start events s ∧ P events s := by
  obtain ⟨⟨events, s⟩, played, holds⟩ := (Option.any_eq_true _ _).mp found
  exact ⟨events, s, .of_play next .nil played, of_decide_eq_true holds⟩

end Play

end Transition

/-! Threads over a shared state, taking their steps in any order, and the
rely-guarantee rule for them. -/

namespace Interleave

open Transition List Function

/-- Every thread of `T` has its own local state; all of them see `shared`. -/
structure System (T Shared Local : Type) where
  shared : Shared
  threads : T → Local

variable {T Shared Local L : Type} [DecidableEq T]

inductive Step (move : T → Shared → Local → L → Shared → Local → Prop) :
    System T Shared Local → T × L → System T Shared Local → Prop where
  | by_thread {s : System T Shared Local} {t : T} {l : L} {shared : Shared} {here : Local}
      (moved : move t s.shared (s.threads t) l shared here) :
      Step move s (t, l) ⟨shared, Function.update s.threads t here⟩

variable {move : T → Shared → Local → L → Shared → Local → Prop}

variable {s s' : System T Shared Local} {t : T} {l : L} {start : System T Shared Local}
  {events : List (Event (System T Shared Local) (T × L))} {here here' : Local} {shared : Shared}

theorem Step.moved (step : Step move s (t, l) s') :
    move t s.shared (s.threads t) l s'.shared (s'.threads t) ∧
      ∀ other, other ≠ t → s'.threads other = s.threads other := by
  cases step with
  | by_thread moved =>
    refine ⟨by simpa using moved, ?_⟩
    intro other different
    exact update_of_ne different _ _

theorem Step.mono {move' : T → Shared → Local → L → Shared → Local → Prop}
    (wider : ∀ t σ here l σ' here', move t σ here l σ' here' → move' t σ here l σ' here')
    {tl : T × L} (step : Step move s tl s') : Step move' s tl s' := by
  cases step with
  | by_thread moved => exact .by_thread (wider _ _ _ _ _ _ moved)

theorem extend (run : Run (Step move) start events s) (t : T) (stands : s.threads t = here)
    (moved : move t s.shared here l shared here') :
    Run (Step move) start
      (⟨s, (t, l), ⟨shared, update s.threads t here'⟩⟩ :: events)
      ⟨shared, update s.threads t here'⟩ := by
  subst stands
  exact run.next (.by_thread moved)

def advance (s : System T Shared Local) (t : T) (shared : Shared) (here : Local) :
    System T Shared Local := ⟨shared, Function.update s.threads t here⟩

theorem advance_self (s : System T Shared Local) (t : T) (shared : Shared) (here : Local) :
    (advance s t shared here).threads t = here := update_self ..

theorem advance_of_ne (s : System T Shared Local) {other : T} (different : other ≠ t)
    (shared : Shared) (here : Local) : (advance s t shared here).threads other = s.threads other :=
  update_of_ne different ..

theorem advance_advance (s : System T Shared Local) (t : T) (shared shared' : Shared)
    (here here' : Local) :
    advance (advance s t shared here) t shared' here' = advance s t shared' here' := by
  simp [advance]

def Reached (move : T → Shared → Local → L → Shared → Local → Prop)
    (allowed : Event (System T Shared Local) (T × L) → Prop)
    (start s : System T Shared Local) : Prop :=
  ∃ events, Run (Step move) start events s ∧ ∀ e ∈ events, allowed e

variable {allowed : Event (System T Shared Local) (T × L) → Prop}

theorem Reached.take (reached : Reached move allowed start s) (t : T) (stands : s.threads t = here)
    (moved : move t s.shared here l shared here')
    (permitted : allowed ⟨s, (t, l), advance s t shared here'⟩) :
    Reached move allowed start (advance s t shared here') := by
  obtain ⟨events, run, admitted⟩ := reached
  refine ⟨_, extend run t stands moved, ?_⟩
  intro e member
  rcases mem_cons.mp member with rfl | older
  · exact permitted
  · exact admitted e older

theorem Reached.again {shared' : Shared}
    (reached : Reached move allowed start (advance s t shared here))
    (moved : move t shared here l shared' here')
    (permitted : allowed ⟨advance s t shared here, (t, l),
      advance (advance s t shared here) t shared' here'⟩) :
    Reached move allowed start (advance s t shared' here') := by
  have next := reached.take t (advance_self ..) moved permitted
  rwa [advance_advance] at next

theorem reached_start (start : System T Shared Local) : Reached move allowed start start :=
  ⟨[], .nil, fun _ member => by cases member⟩

theorem Reached.resume (reached : Reached move allowed start s) (stands : s.threads t = here) :
    Reached move allowed start (advance s t s.shared here) := by
  have same : advance s t s.shared here = s := by
    rw [← stands, advance, update_eq_self]
  rw [same]
  exact reached

/-- An interleaving is safe for a global invariant and a local one per thread. -/
structure Safe (globally : Shared → Prop) (locally : T → Shared → Local → Prop)
    (s : System T Shared Local) : Prop where
  global : globally s.shared
  thread : ∀ t, locally t s.shared (s.threads t)

/-- The rely-guarantee rule. A step keeps the global invariant and the mover's local
one and stays inside the mover's guarantee; local invariants are stable under the
guarantees of the other threads. -/
theorem safe_of_rely_guarantee {globally : Shared → Prop} {locally : T → Shared → Local → Prop}
    (guarantee : T → Shared → Shared → Prop)
    {allowed : Event (System T Shared Local) (T × L) → Prop} (init : Safe globally locally start)
    (own : ∀ (s s' : System T Shared Local) t l, globally s.shared →
      locally t s.shared (s.threads t) → allowed ⟨s, (t, l), s'⟩ →
      move t s.shared (s.threads t) l s'.shared (s'.threads t) →
      globally s'.shared ∧ locally t s'.shared (s'.threads t) ∧ guarantee t s.shared s'.shared)
    (stable : ∀ t other before after here, other ≠ t → globally before →
      guarantee t before after → locally other before here → locally other after here)
    (run : Run (Step move) start events s) (admitted : ∀ e ∈ events, allowed e) :
    Safe globally locally s := by
  refine run.invariant (I := Safe globally locally) init ?_ admitted
  rintro s ⟨t, l⟩ s' safe permitted step
  obtain ⟨moved, kept⟩ := step.moved
  obtain ⟨global, mover, guaranteed⟩ := own s s' t l safe.global (safe.thread t) permitted moved
  refine ⟨global, fun other => ?_⟩
  by_cases same : other = t
  · exact same ▸ mover
  · rw [kept other same]
    exact stable t other _ _ _ same safe.global guaranteed (safe.thread other)

end Interleave
