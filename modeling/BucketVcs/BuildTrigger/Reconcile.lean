import BucketVcs.BuildTrigger.Store

/-! A whole application of a document: which of the triggers that it names can get lost, and what a
pruned repository holds in the end. -/

namespace BucketVcs.BuildTrigger

open List

variable {env : Env}

section Entries

inductive Applied (env : Env) : Db → List ApplyTrigger → Db → Prop where
  | nil {db : Db} : Applied env db [] db
  | cons {db mid after : Db} {entry : ApplyTrigger} {rest : List ApplyTrigger} {change : Change}
      (first : applyEntry env entry db = (.ok change, mid)) (others : Applied env mid rest after) :
      Applied env db (entry :: rest) after

/-- An application of the entries ends with all of them applied, or at one that fails. -/
theorem applyEntries_cases (entries : List ApplyTrigger) (result : ApplyResult) (db : Db) :
    (∃ final, (applyEntries env entries result db).1 = .ok final ∧
      Applied env db entries (applyEntries env entries result db).2) ∨
    ∃ before entry rest mid error, entries = before ++ entry :: rest ∧ Applied env db before mid ∧
      applyEntry env entry mid = (.error error, (applyEntries env entries result db).2) ∧
      (applyEntries env entries result db).1 = .error (.entry entry.key error) := by
  induction entries generalizing result db with
  | nil => exact .inl ⟨result, rfl, .nil⟩
  | cons entry rest ih =>
    unfold applyEntries
    cases first : applyEntry env entry db with
    | mk outcome mid =>
      cases outcome with
      | error error => exact .inr ⟨[], entry, rest, db, error, rfl, .nil, first, rfl⟩
      | ok change =>
        rcases ih (result.count change) mid with ⟨final, ended, applied⟩ |
          ⟨before, failing, after, stopped, error, same, applied, failed, reported⟩
        · exact .inl ⟨final, ended, .cons first applied⟩
        · right
          exact ⟨entry :: before, failing, after, stopped, error, by rw [same]; rfl,
            .cons first applied, failed, reported⟩

variable {before : List ApplyTrigger} {db mid : Db} {entry : ApplyTrigger}
  {entries : List ApplyTrigger} {after : Db}

theorem applyEntries_append (applied : Applied env db before mid) (rest : List ApplyTrigger)
    (result : ApplyResult) :
    ∃ counted, applyEntries env (before ++ rest) result db = applyEntries env rest counted mid := by
  induction applied generalizing result with
  | nil => exact ⟨result, rfl⟩
  | @cons db mid after entry others change first _ ih =>
    obtain ⟨counted, same⟩ := ih (result.count change)
    refine ⟨counted, ?_⟩
    rw [← same]
    simp [applyEntries, first]

theorem applyEntry_ok {change : Change} (first : applyEntry env entry db = (.ok change, mid)) :
    ∃ row, Declares env entry row ∧ db.Sets mid entry.key (some row) := by
  have effect := @applyEntry_effect env entry db
  rw [first] at effect
  cases effect with
  | written _ declares sets => exact ⟨_, declares, sets⟩

def OldOrNew (env : Env) (entries : List ApplyTrigger) (old row : Trigger) : Prop :=
  row = old ∨ ∃ entry ∈ entries, entry.key = row.key ∧ Declares env entry row

theorem Declares.key {row : Trigger} (declares : Declares env entry row) : entry.key = row.key := by
  obtain ⟨input, parsed, checked, _, same, _⟩ := declares
  rw [same, toInput_key parsed]

section

variable (applied : Applied env db entries after)
include applied

theorem Applied.keeps {key : TriggerKey} {old : Trigger} (there : db.find key = some old) :
    ∃ row, after.find key = some row ∧ OldOrNew env entries old row := by
  induction applied generalizing old with
  | nil => exact ⟨old, there, .inl rfl⟩
  | @cons db mid after entry rest change first _ ih =>
    obtain ⟨written, declares, sets⟩ := applyEntry_ok first
    by_cases same : key = entry.key
    · subst same
      obtain ⟨row, found, rfl | ⟨later, member, equal, declared⟩⟩ := ih sets.here
      · exact ⟨row, found, .inr ⟨entry, mem_cons_self, declares.key, declares⟩⟩
      · exact ⟨row, found, .inr ⟨later, mem_cons_of_mem _ member, equal, declared⟩⟩
    · rw [← sets.others key same] at there
      obtain ⟨row, found, rfl | ⟨later, member, equal, declared⟩⟩ := ih there
      · exact ⟨row, found, .inl rfl⟩
      · exact ⟨row, found, .inr ⟨later, mem_cons_of_mem _ member, equal, declared⟩⟩

theorem Applied.untouched {key : TriggerKey} (absent : key ∉ declared entries) :
    after.find key = db.find key := by
  induction applied with
  | nil => rfl
  | cons first _ ih =>
    obtain ⟨row, _, sets⟩ := applyEntry_ok first
    simp only [declared, map_cons, mem_cons, not_or] at absent
    rw [ih absent.2, sets.others key absent.1]

theorem Applied.last {rest : List ApplyTrigger}
    (split : entries = before ++ entry :: rest) (last : entry.key ∉ declared rest) :
    ∃ row, after.find entry.key = some row ∧ Declares env entry row := by
  induction applied generalizing before with
  | nil => simp at split
  | cons first others ih =>
    cases before with
    | nil =>
      cases split
      obtain ⟨row, declares, sets⟩ := applyEntry_ok first
      exact ⟨row, by rw [others.untouched last, sets.here], declares⟩
    | cons head before =>
      cases split
      exact ih rfl

end

end Entries

section Prune

variable {names : List TriggerKey}

/-- Rows were deleted, and none under the names. -/
structure Pruned (names : List TriggerKey) (db after : Db) : Prop where
  fewer : ∀ row ∈ after.triggers.rows, row ∈ db.triggers.rows
  kept : ∀ row ∈ db.triggers.rows, row.key ∈ names → row ∈ after.triggers.rows

variable {after : Db}

theorem Pruned.of_same {db : Db} (same : after.triggers = db.triggers) : Pruned names db after := by
  constructor
  · intro row member
    rwa [same] at member
  · intro row member _
    rwa [same]

theorem Pruned.trans {db mid : Db} (one : Pruned names db mid) (two : Pruned names mid after) :
    Pruned names db after := by
  constructor
  · intro row member
    exact one.fewer row (two.fewer row member)
  · intro row member named
    exact two.kept row (one.kept row member named) named

variable {table : Keyed.Rows Trigger.id Trigger.key}

/-- A row of the table as it was listed is deleted. The ids of that table tell its rows apart, so
that no other row goes with it. -/
theorem remove_pruned {row : Trigger} {db : Db}
    (listed : row ∈ table.rows) (sub : ∀ other ∈ db.triggers.rows, other ∈ table.rows)
    (undeclared : row.key ∉ names) :
    Pruned names db (remove env row.id db).2 ∧
      ((remove env row.id db).1 = .ok () → row ∉ (remove env row.id db).2.triggers.rows) := by
  have deleted : Pruned names db (db.deleted row.id) := by
    constructor
    · intro other member
      exact (Keyed.Rows.mem_remove.mp member).1
    · intro other member named
      refine Keyed.Rows.mem_remove.mpr ⟨member, ?_⟩
      intro same
      have identical := inj_on_of_nodup_map table.ids (sub other member) listed same
      exact undeclared (identical ▸ named)
  have gone : row ∉ (db.deleted row.id).triggers.rows := by
    intro member
    exact (Keyed.Rows.mem_remove.mp member).2 rfl
  unfold remove
  cases env.outcome db.statements with
  | failed => exact ⟨.of_same rfl, by simp⟩
  | lost => exact ⟨deleted, by simp⟩
  | done =>
    by_cases present : ∃ other ∈ db.triggers.rows, other.id = row.id
    · simp only [present]
      exact ⟨deleted, fun _ => gone⟩
    · simp only [present]
      exact ⟨.of_same rfl, by simp⟩

theorem pruneRows_pruned {rows : List Trigger} {db : Db} (listed : ∀ row ∈ rows, row ∈ table.rows)
    (sub : ∀ other ∈ db.triggers.rows, other ∈ table.rows) (result : ApplyResult) :
    Pruned names db (pruneRows env names rows result db).2 ∧
      ∀ final, (pruneRows env names rows result db).1 = .ok final →
        ∀ row ∈ rows, row.key ∉ names → row ∉ (pruneRows env names rows result db).2.triggers.rows := by
  induction rows generalizing result db with
  | nil => exact ⟨.of_same rfl, fun _ _ row member => absurd member not_mem_nil⟩
  | cons head rest ih =>
    have listedRest : ∀ row ∈ rest, row ∈ table.rows := fun row member =>
      listed row (mem_cons_of_mem _ member)
    unfold pruneRows
    by_cases named : head.key ∈ names
    · simp only [named]
      obtain ⟨pruned, cleared⟩ := ih listedRest sub result
      refine ⟨pruned, ?_⟩
      intro final ended row member undeclared
      rcases mem_cons.mp member with rfl | later
      · exact absurd named undeclared
      · exact cleared final ended row later undeclared
    · simp only [named]
      obtain ⟨first, gone⟩ := @remove_pruned env names table head db
        (listed head mem_cons_self) sub named
      generalize remove env head.id db = outcome at first gone
      obtain ⟨done, mid⟩ := outcome
      cases done with
      | error error => exact ⟨first, by simp⟩
      | ok _ =>
        have subMid : ∀ other ∈ mid.triggers.rows, other ∈ table.rows := fun other member =>
          sub other (first.fewer other member)
        obtain ⟨pruned, cleared⟩ := ih listedRest subMid { result with pruned := result.pruned + 1 }
        refine ⟨first.trans pruned, ?_⟩
        intro final ended row member undeclared
        rcases mem_cons.mp member with rfl | later
        · intro still
          exact gone rfl (pruned.fewer _ still)
        · exact cleared final ended row later undeclared

theorem pruneRepos_pruned (visits : List RepoKey) (result : ApplyResult) (db : Db) :
    Pruned names db (pruneRepos env names visits result db).2 ∧
      ∀ final, (pruneRepos env names visits result db).1 = .ok final →
        ∀ row ∈ (pruneRepos env names visits result db).2.triggers.rows,
          row.key.toRepoKey ∈ visits → row.key ∈ names := by
  induction visits generalizing result db with
  | nil => exact ⟨.of_same rfl, fun _ _ row _ member => absurd member not_mem_nil⟩
  | cons key rest ih =>
    unfold pruneRepos
    cases read : env.outcome db.statements with
    | failed | lost =>
      simp only [list, read]
      exact ⟨.of_same rfl, by simp⟩
    | done =>
      simp only [list, read]
      have listed : ∀ row ∈ (db.triggers.rows.filter fun row => row.key.toRepoKey = key).mergeSort
          (fun one two => one.key.name ≤ two.key.name), row ∈ db.triggers.rows := by
        intro row member
        exact (mem_filter.mp (mem_mergeSort.mp member)).1
      obtain ⟨pruned, cleared⟩ :=
        @pruneRows_pruned env names db.triggers _ db.ran listed (fun _ member => member) result
      generalize pruneRows env names _ result db.ran = outcome at pruned cleared
      obtain ⟨done, mid⟩ := outcome
      have first : Pruned names db mid := ⟨pruned.fewer, pruned.kept⟩
      cases done with
      | error error => exact ⟨first, by simp⟩
      | ok counted =>
        obtain ⟨others, clearedRest⟩ := ih counted mid
        refine ⟨first.trans others, ?_⟩
        intro final ended row member visited
        rcases mem_cons.mp visited with here | later
        · by_contra undeclared
          have inMid := others.fewer row member
          have inDb := first.fewer row inMid
          refine cleared counted rfl row ?_ undeclared inMid
          exact mem_mergeSort.mpr (mem_filter.mpr ⟨inDb, by simp [here]⟩)
        · exact clearedRest final ended row member later

end Prune

section Application

def entriesOf : Except Unit (List ApplyTrigger) → List ApplyTrigger
  | .ok entries => entries
  | .error () => []

/-- An entry is reached whose trigger was there at the start, is deleted and not created again. -/
def Interrupted (env : Env) (entries : List ApplyTrigger) (db : Db) : Prop :=
  ∃ before entry rest mid, entries = before ++ entry :: rest ∧ Applied env db before mid ∧
    Loses env mid entry ∧ db.find entry.key ≠ none

/-- No trigger that the document names is lost, and a repository that is pruned holds the declared
triggers, each as it was declared last. -/
structure Reconciles (env : Env) (document : Except Unit (List ApplyTrigger)) (prune : Bool)
    (db : Db) : Prop where
  kept : ∀ key ∈ declared (entriesOf document), ∀ old, db.find key = some old →
    ∃ row, (apply env document prune db).2.find key = some row ∧
      OldOrNew env (entriesOf document) old row
  pruned : ∀ result, (apply env document prune db).1 = .ok result → prune = true →
    ∀ key : TriggerKey, key.toRepoKey ∈ covered (entriesOf document) →
      (key ∉ declared (entriesOf document) → (apply env document prune db).2.find key = none) ∧
      ∀ before entry rest, entriesOf document = before ++ entry :: rest → entry.key = key →
        key ∉ declared rest → ∃ row, (apply env document prune db).2.find key = some row ∧
          Declares env entry row

variable {key : TriggerKey}

theorem Pruned.find {names : List TriggerKey} {db after : Db} (pruned : Pruned names db after)
    (named : key ∈ names) {row : Trigger} (found : db.find key = some row) :
    after.find key = some row := by
  obtain ⟨member, same⟩ := Keyed.Rows.find_eq_some_iff.mp found
  exact Keyed.Rows.find_eq_some_iff.mpr ⟨pruned.kept row member (same ▸ named), same⟩

variable {entries : List ApplyTrigger} {prune : Bool} {db : Db} {result : ApplyResult}

theorem apply_of_applied (ended : (applyEntries env entries ⟨0, 0, 0⟩ db).1 = .ok result) :
    apply env (.ok entries) prune db =
      if prune then
        pruneRepos env (declared entries) (env.range (covered entries)) result
          (applyEntries env entries ⟨0, 0, 0⟩ db).2
      else (.ok result, (applyEntries env entries ⟨0, 0, 0⟩ db).2) := by
  simp only [apply]
  generalize applyEntries env entries ⟨0, 0, 0⟩ db = outcome at ended ⊢
  obtain ⟨done, after⟩ := outcome
  cases ended
  rfl

theorem apply_of_failed {error : ApplyError}
    (ended : (applyEntries env entries ⟨0, 0, 0⟩ db).1 = .error error) :
    apply env (.ok entries) prune db = (.error error, (applyEntries env entries ⟨0, 0, 0⟩ db).2) := by
  simp only [apply]
  generalize applyEntries env entries ⟨0, 0, 0⟩ db = outcome at ended ⊢
  obtain ⟨done, after⟩ := outcome
  cases ended
  rfl

theorem find_apply_of_applied (ended : (applyEntries env entries ⟨0, 0, 0⟩ db).1 = .ok result)
    (named : key ∈ declared entries) {row : Trigger}
    (found : (applyEntries env entries ⟨0, 0, 0⟩ db).2.find key = some row) :
    (apply env (.ok entries) prune db).2.find key = some row := by
  rw [apply_of_applied ended]
  cases prune with
  | false => exact found
  | true => exact (pruneRepos_pruned _ _ _).1.find named found

theorem pruned_of_applied
    (ended : (applyEntries env entries ⟨0, 0, 0⟩ db).1 = .ok result) {final : ApplyResult}
    (succeeded : (apply env (.ok entries) true db).1 = .ok final)
    (inside : key.toRepoKey ∈ covered entries) (undeclared : key ∉ declared entries) :
    (apply env (.ok entries) true db).2.find key = none := by
  rw [apply_of_applied ended] at succeeded ⊢
  have cleared := (@pruneRepos_pruned env (declared entries) _ _ _).2 final succeeded
  apply Keyed.Rows.find_eq_none_iff.mpr
  intro row member same
  apply undeclared
  rw [← same]
  apply cleared row member
  rw [same]
  exact (env.range_perm _).mem_iff.mpr inside

theorem lost_of_interrupted (interrupted : Interrupted env entries db) :
    ∃ key ∈ declared entries, db.find key ≠ none ∧
      (apply env (.ok entries) prune db).2.find key = none := by
  obtain ⟨before, entry, rest, mid, split, applied, loses, there⟩ := interrupted
  refine ⟨entry.key, by simp [split, declared], there, ?_⟩
  obtain ⟨counted, onwards⟩ := applyEntries_append applied (entry :: rest) ⟨0, 0, 0⟩
  rw [← split] at onwards
  have effect := @applyEntry_effect env entry mid
  cases failed : applyEntry env entry mid with
  | mk outcome after =>
    rw [failed] at effect
    cases effect with
    | kept intact _ | written intact _ _ => exact absurd loses intact
    | lost _ sets =>
      simp only [applyEntries, failed] at onwards
      have ended := congrArg Prod.fst onwards
      rw [apply_of_failed ended, onwards]
      exact sets.here

theorem OldOrNew.mono {entries more : List ApplyTrigger} {old row : Trigger}
    (either : OldOrNew env entries old row) (sub : ∀ entry ∈ entries, entry ∈ more) :
    OldOrNew env more old row := by
  rcases either with same | ⟨entry, member, equal, declares⟩
  · exact .inl same
  · exact .inr ⟨entry, sub entry member, equal, declares⟩

theorem kept_of_not_interrupted
    (whole : ¬Interrupted env entries db) (named : key ∈ declared entries)
    {old : Trigger} (there : db.find key = some old) :
    ∃ row, (apply env (.ok entries) prune db).2.find key = some row ∧
      OldOrNew env entries old row := by
  rcases @applyEntries_cases env entries ⟨0, 0, 0⟩ db with ⟨result, ended, applied⟩ |
    ⟨before, entry, rest, mid, error, split, applied, failed, ended⟩
  · obtain ⟨row, found, either⟩ := applied.keeps there
    exact ⟨row, find_apply_of_applied ended named found, either⟩
  · obtain ⟨row, found, either⟩ := applied.keeps there
    have either : OldOrNew env entries old row := either.mono fun earlier member => by
      rw [split]
      exact mem_append_left _ member
    rw [apply_of_failed ended]
    have effect := @applyEntry_effect env entry mid
    rw [failed] at effect
    -- The entry that failed wrote its row, or lost it, or did nothing; other rows stay.
    cases effect with
    | kept _ same => exact ⟨row, (same key).trans found, either⟩
    | @written _ _ written _ declares sets =>
      by_cases here : key = entry.key
      · refine ⟨written, by rw [here]; exact sets.here, .inr ⟨entry, ?_, declares.key, declares⟩⟩
        rw [split]
        simp
      · exact ⟨row, (sets.others key here).trans found, either⟩
    | lost loses sets =>
      by_cases here : key = entry.key
      · refine absurd ⟨before, entry, rest, mid, split, applied, loses, ?_⟩ whole
        rw [← here, there]
        exact Option.some_ne_none old
      · exact ⟨row, (sets.others key here).trans found, either⟩

/-- An application loses a trigger that the document names exactly if it is interrupted between the
deletion and the creation of one that was there at the start. -/
theorem apply_reconciles_iff (env : Env) (document : Except Unit (List ApplyTrigger)) (prune : Bool)
    (db : Db) :
    Reconciles env document prune db ↔ ¬Interrupted env (entriesOf document) db := by
  constructor
  · intro reconciles interrupted
    cases document with
    | error unread =>
      obtain ⟨before, entry, rest, _, split, _⟩ := interrupted
      simp [entriesOf] at split
    | ok entries =>
      obtain ⟨key, named, there, gone⟩ := @lost_of_interrupted env entries prune db interrupted
      obtain ⟨old, found⟩ := Option.ne_none_iff_exists'.mp there
      obtain ⟨row, kept, _⟩ := reconciles.kept key named old found
      cases gone.symm.trans kept
  · intro whole
    cases document with
    | error unread =>
      constructor
      · intro key named
        simp [entriesOf, declared] at named
      · intro result ended
        cases ended
    | ok entries =>
      constructor
      · intro key named old there
        exact kept_of_not_interrupted whole named there
      · intro final succeeded pruning key inside
        subst pruning
        rcases @applyEntries_cases env entries ⟨0, 0, 0⟩ db with ⟨result, ended, applied⟩ |
          ⟨_, _, _, _, _, _, _, _, ended⟩
        · constructor
          · intro undeclared
            exact pruned_of_applied ended succeeded inside undeclared
          · intro before entry rest split here last
            subst here
            obtain ⟨row, found, declares⟩ := applied.last split last
            have named : entry.key ∈ declared entries := by
              rw [show entries = _ from split]
              simp [declared]
            exact ⟨row, find_apply_of_applied ended named found, declares⟩
        · rw [apply_of_failed ended] at succeeded
          cases succeeded

def calm : Env where
  pathMatch := fun pattern name => .ok (pattern = name)
  parseDuration := fun _ => none
  parseScopes := fun _ => none
  generateSecret := fun n => some [0x73, n.toUInt8]
  generateID := fun n => some [0x69, n.toUInt8]
  now := fun n => n
  outcome := fun _ => .done
  range := id
  range_perm := List.Perm.refl

def sampleConfig : Config :=
  ⟨[0x68, 0x74, 0x74, 0x70, 0x73, 0x3A, 0x2F, 0x2F, 0x63], [0x73], [], [], [], false, [], [], [], [], 0⟩

def sampleTrigger : Trigger :=
  ⟨[0x61], ⟨⟨[0x74], [0x72]⟩, [0x6E]⟩, ⟨.generic, sampleConfig, [], [], .none, 9, 900, true⟩, 0⟩

def sampleDb : Db :=
  ⟨⟨[sampleTrigger], List.nodup_singleton _, List.nodup_singleton _⟩, [⟨[0x74], [0x72]⟩], 0⟩

def unknownKind : ApplyTrigger :=
  ⟨sampleTrigger.key, .unknown [0x6A, 0x65, 0x6E, 0x6B, 0x69, 0x6E, 0x73], sampleConfig, [], [], .unset,
    [], []⟩

/-- An entry of an unknown kind for an existing trigger: the trigger is deleted, its replacement is
refused. -/
theorem unknown_kind_loses_trigger :
    sampleDb.find sampleTrigger.key = some sampleTrigger ∧
      (apply calm (.ok [unknownKind]) false sampleDb).2.find sampleTrigger.key = none ∧
      ¬Reconciles calm (.ok [unknownKind]) false sampleDb := by
  have there : sampleDb.find sampleTrigger.key = some sampleTrigger := by decide +kernel
  have gone : (apply calm (.ok [unknownKind]) false sampleDb).2.find sampleTrigger.key = none := by
    decide +kernel
  refine ⟨there, gone, ?_⟩
  intro reconciles
  obtain ⟨row, kept, _⟩ := reconciles.kept sampleTrigger.key (mem_singleton_self _) _ there
  cases gone.symm.trans kept

end Application

end BucketVcs.BuildTrigger
