import Mathlib.Order.Lattice

/-! A value that is replaced from time to time, and when each of its values was current. -/

namespace Timeline

open List

structure Span (V : Type) where
  value : V
  start : Nat
  stop : Nat

/-- The current value, since when it is current, and the values before it, newest first. -/
structure Line (V : Type) where
  current : V
  since : Nat
  past : List (Span V)

variable {V : Type}

/-- `value` was current at `instant`. At the instant of a replacement both values were. -/
def Line.At (line : Line V) (instant : Nat) (value : V) : Prop :=
  (value = line.current ∧ line.since ≤ instant) ∨
    ∃ span ∈ line.past, span.value = value ∧ span.start ≤ instant ∧ instant ≤ span.stop

def Line.replace (line : Line V) (next : V) (instant : Nat) : Line V :=
  ⟨next, instant, ⟨line.current, line.since, instant⟩ :: line.past⟩

/-- Nothing of the line lies after `now`. -/
structure Line.Before (line : Line V) (now : Nat) : Prop where
  since : line.since ≤ now
  past : ∀ span ∈ line.past, span.stop ≤ now

/-- `P` holds of the current value, or has not held of any since `instant`. -/
def Line.Quiet (line : Line V) (P : V → Prop) (instant : Nat) : Prop :=
  P line.current ∨ ∀ span ∈ line.past, P span.value → span.stop ≤ instant

variable {line : Line V} {P : V → Prop} {instant now : Nat}

variable {later : Nat}

theorem Line.Before.mono (before : line.Before now) (le : now ≤ later) : line.Before later :=
  ⟨le_trans before.since le, fun span member => le_trans (before.past span member) le⟩

theorem Line.Before.replace (before : line.Before now) (le : now ≤ later) (next : V) :
    (line.replace next later).Before later := by
  refine ⟨le_refl later, ?_⟩
  intro span member
  rcases mem_cons.mp member with rfl | older
  · exact le_refl later
  · exact le_trans (before.past span older) le

theorem Line.Before.quiet (before : line.Before now) (P : V → Prop) (le : now ≤ later) :
    line.Quiet P later :=
  .inr fun span member _ => le_trans (before.past span member) le

theorem Line.Quiet.replace (quiet : line.Quiet P instant) {next : V}
    (kept : P line.current → P next) (later : Nat) : (line.replace next later).Quiet P instant := by
  by_cases holds : P line.current
  · exact .inl (kept holds)
  · right
    intro span member now
    rcases mem_cons.mp member with rfl | older
    · exact absurd now holds
    · rcases quiet with current | ended
      · exact absurd current holds
      · exact ended span older now

theorem Line.Quiet.not_at (quiet : line.Quiet P instant) (gone : ¬ P line.current)
    (after : instant < later) {value : V} (current : line.At later value) : ¬ P value := by
  intro holds
  rcases current with ⟨rfl, -⟩ | ⟨span, member, rfl, -, within⟩
  · exact gone holds
  · rcases quiet with current | ended
    · exact gone current
    · have stopped := ended span member holds
      omega

section Growing

def Line.Was (line : Line V) (value : V) : Prop :=
  value = line.current ∨ ∃ span ∈ line.past, span.value = value

/-- `value` was current at some moment that is not before `instant`. -/
def Line.WasSince (line : Line V) (value : V) (instant : Nat) : Prop :=
  value = line.current ∨ ∃ span ∈ line.past, span.value = value ∧ instant ≤ span.stop

instance [DecidableEq V] (line : Line V) (instant : Nat) (value : V) :
    Decidable (line.At instant value) :=
  inferInstanceAs (Decidable ((value = line.current ∧ line.since ≤ instant) ∨
    ∃ span ∈ line.past, span.value = value ∧ span.start ≤ instant ∧ instant ≤ span.stop))

instance [DecidableEq V] (line : Line V) (value : V) : Decidable (line.Was value) :=
  inferInstanceAs (Decidable (value = line.current ∨ ∃ span ∈ line.past, span.value = value))

instance [DecidableEq V] (line : Line V) (value : V) (instant : Nat) :
    Decidable (line.WasSince value instant) :=
  inferInstanceAs (Decidable (value = line.current ∨
    ∃ span ∈ line.past, span.value = value ∧ instant ≤ span.stop))

variable {value : V} {later : Nat} {next : V}

theorem Line.At.wasSince (current : line.At now value) (le : instant ≤ now) :
    line.WasSince value instant := by
  rcases current with ⟨rfl, -⟩ | ⟨span, member, same, -, within⟩
  · exact .inl rfl
  · exact .inr ⟨span, member, same, le_trans le within⟩

variable [LinearOrder V]

/-- Every value of the line is larger than those before it. -/
structure Line.Growing (line : Line V) (now : Nat) : Prop where
  since : line.since ≤ now
  past : ∀ span ∈ line.past, span.value < line.current ∧ span.start ≤ span.stop ∧ span.stop ≤ line.since
  ordered : line.past.Pairwise fun newer older => older.value < newer.value ∧ older.stop ≤ newer.stop

theorem Line.Growing.mono (growing : line.Growing now) (le : now ≤ later) : line.Growing later :=
  { growing with since := le_trans growing.since le }

theorem Line.Growing.replace (growing : line.Growing now) (larger : line.current < next) :
    (line.replace next now).Growing now := by
  refine ⟨le_refl now, ?_, ?_⟩
  · intro span member
    rcases mem_cons.mp member with rfl | older
    · exact ⟨larger, growing.since, le_refl now⟩
    · obtain ⟨smaller, valid, stopped⟩ := growing.past span older
      exact ⟨lt_trans smaller larger, valid, le_trans stopped growing.since⟩
  · refine pairwise_cons.mpr ⟨fun span older => ?_, growing.ordered⟩
    obtain ⟨smaller, _, stopped⟩ := growing.past span older
    exact ⟨smaller, le_trans stopped growing.since⟩

omit [LinearOrder V] in
theorem Line.Was.replace (was : line.Was value) (next : V) (later : Nat) :
    (line.replace next later).Was value := by
  rcases was with rfl | ⟨span, member, same⟩
  · exact .inr ⟨_, mem_cons_self, rfl⟩
  · exact .inr ⟨span, mem_cons_of_mem _ member, same⟩

omit [LinearOrder V] in
theorem Line.WasSince.replace (was : line.WasSince value instant) (next : V) (le : instant ≤ later)
    : (line.replace next later).WasSince value instant := by
  rcases was with rfl | ⟨span, member, same, within⟩
  · exact .inr ⟨_, mem_cons_self, rfl, le⟩
  · exact .inr ⟨span, mem_cons_of_mem _ member, same, within⟩

omit [LinearOrder V] in
theorem Line.WasSince.mono {earlier : Nat} (was : line.WasSince value instant)
    (le : earlier ≤ instant) : line.WasSince value earlier :=
  was.imp_right fun ⟨span, member, same, within⟩ => ⟨span, member, same, le_trans le within⟩

theorem stop_le_of_value_le {past : List (Span V)}
    (ordered : past.Pairwise fun newer older => older.value < newer.value ∧ older.stop ≤ newer.stop)
    {first second : Span V} (one : first ∈ past) (two : second ∈ past)
    (le : first.value ≤ second.value) : first.stop ≤ second.stop := by
  induction past with
  | nil => cases one
  | cons newest rest ih =>
    obtain ⟨older, ordered⟩ := pairwise_cons.mp ordered
    rcases mem_cons.mp one with rfl | inside
    · rcases mem_cons.mp two with rfl | behind
      · exact le_rfl
      · exact absurd (older second behind).1 (not_lt.mpr le)
    · rcases mem_cons.mp two with rfl | behind
      · exact (older first inside).2
      · exact ih ordered inside behind

theorem Line.WasSince.larger (growing : line.Growing now) (was : line.WasSince value instant)
    (known : line.Was next) (le : value ≤ next) : line.WasSince next instant := by
  rcases known with current | ⟨span, member, rfl⟩
  · exact .inl current
  · rcases was with rfl | ⟨other, inside, rfl, within⟩
    · exact absurd (growing.past span member).1 (not_lt.mpr le)
    · refine .inr ⟨span, member, rfl, ?_⟩
      exact le_trans within (stop_le_of_value_le growing.ordered inside member le)

theorem Line.WasSince.exists_at (growing : line.Growing now) (was : line.WasSince value instant)
    (le : instant ≤ now) : ∃ moment, instant ≤ moment ∧ moment ≤ now ∧ line.At moment value := by
  rcases was with rfl | ⟨span, member, rfl, within⟩
  · exact ⟨now, le, le_refl now, .inl ⟨rfl, growing.since⟩⟩
  · obtain ⟨_, valid, stopped⟩ := growing.past span member
    exact ⟨span.stop, within, le_trans stopped growing.since,
      .inr ⟨span, member, rfl, valid, le_rfl⟩⟩

end Growing

end Timeline
