import BucketVcs.Auth.Names

/-! The aliases over whole histories of registrations, renames, deletions and removals: they point
at live repositories, no live repository is one, and a name that was given up leads to where its
repository went. -/

namespace BucketVcs.Auth

open Database Transition List AliasRow

inductive NameCall where
  | registerRepo (tenant : Tenant) (name : RepoName)
  | renameRepo (tenant : Tenant) (oldName newName : RepoName)
  | deleteRepoCascade (tenant : Tenant) (repo : RepoName)
  | removeAlias (tenant : Tenant) (oldName : RepoName)
  deriving DecidableEq, Repr

/-- The tables, and a number for each repository that was registered. -/
structure Catalog where
  db : Database
  registered : Identity

def Catalog.empty : Catalog := ⟨.empty, 0⟩

def Catalog.after (backend : Backend) (c : Catalog) : NameCall → Catalog
  | .registerRepo tenant name =>
    match c.db.registerRepo tenant name c.registered with
    | .ok (_, db) => ⟨db, c.registered + 1⟩
    | .error _ => c
  | .renameRepo tenant oldName newName =>
    match c.db.renameRepo tenant oldName newName with
    | .ok db => { c with db := db }
    | .error _ => c
  | .deleteRepoCascade tenant repo => { c with db := deleteRepoCascade backend c.db tenant repo }
  | .removeAlias tenant oldName => { c with db := c.db.removeAlias tenant oldName }

def Catalog.Step (backend : Backend) (c : Catalog) (call : NameCall) (c' : Catalog) : Prop :=
  c' = c.after backend call

/-- The keys, no live repository under an alias, and one number per repository. -/
structure Catalog.Sound (c : Catalog) : Prop where
  kept : Kept c.db
  unaliased : ∀ link ∈ c.db.repoAliases, ∀ row ∈ c.db.repos, row.of link.tenant link.oldName = false
  numbered : ∀ row ∈ c.db.repos, row.identity < c.registered
  distinct : ∀ row ∈ c.db.repos, ∀ other ∈ c.db.repos, row.identity = other.identity → row = other

section Steps

variable {c : Catalog} {tenant : Tenant} {name : RepoName}

theorem Catalog.sound_empty : Catalog.empty.Sound := by
  constructor
  · constructor <;> simp [Catalog.empty, Database.empty]
  all_goals simp [Catalog.empty, Database.empty]

theorem Catalog.Sound.removeAlias (sound : c.Sound) :
    Catalog.Sound { c with db := c.db.removeAlias tenant name } where
  kept := kept_removeAlias sound.kept tenant name
  unaliased := fun link member => sound.unaliased link (mem_of_mem_filter member)
  numbered := sound.numbered
  distinct := sound.distinct

theorem Catalog.Sound.delete (sound : c.Sound) (backend : Backend) :
    Catalog.Sound { c with db := deleteRepoCascade backend c.db tenant name } := by
  have kept := kept_delete sound.kept backend tenant name
  have rows {row : RepoRow} (live : row ∈ (deleteRepoCascade backend c.db tenant name).repos) :
      row ∈ c.db.repos := by
    rw [deleteRepoCascade_eq] at live
    exact mem_of_mem_filter live
  have links {link : AliasRow}
      (member : link ∈ (deleteRepoCascade backend c.db tenant name).repoAliases) :
      link ∈ c.db.repoAliases := by
    rw [deleteRepoCascade_eq] at member
    exact mem_of_mem_filter member
  constructor
  · exact kept
  · intro link member row live
    exact sound.unaliased link (links member) row (rows live)
  · intro row live
    exact sound.numbered row (rows live)
  · intro row live other live'
    exact sound.distinct row (rows live) other (rows live')

variable {db : Database}

theorem Catalog.Sound.register (sound : c.Sound) {inserted : Bool}
    (ok : c.db.registerRepo tenant name c.registered = .ok (inserted, db)) :
    Catalog.Sound ⟨db, c.registered + 1⟩ := by
  have next := registerRepo_ok ok
  subst next
  cases free : c.db.repo tenant name with
  | some row =>
    have shadowed : Catalog.Sound ⟨c.db.removeAlias tenant name, c.registered⟩ := sound.removeAlias
    refine { shadowed with numbered := ?_ }
    intro row live
    exact Nat.lt_succ_of_lt (sound.numbered row live)
  | none =>
    constructor
    · exact kept_removeAlias (kept_addRepo sound.kept free) tenant name
    · intro link member row live
      obtain ⟨inside, stays⟩ := mem_filter.mp member
      rcases mem_append.mp live with old | new
      · exact sound.unaliased link inside row old
      · obtain rfl := mem_singleton.mp new
        apply Bool.eq_false_iff.mpr
        intro here
        obtain ⟨sameTenant, sameName⟩ := RepoRow.of_iff.mp here
        rw [from_iff.mpr ⟨sameTenant.symm, sameName.symm⟩] at stays
        cases stays
    · intro row live
      rcases mem_append.mp live with old | new
      · exact Nat.lt_succ_of_lt (sound.numbered row old)
      · obtain rfl := mem_singleton.mp new
        exact Nat.lt_succ_self _
    · intro row live other live' same
      rcases mem_append.mp live with old | new
      · rcases mem_append.mp live' with old' | new'
        · exact sound.distinct row old other old' same
        · obtain rfl := mem_singleton.mp new'
          exact absurd same (ne_of_lt (sound.numbered row old))
      · obtain rfl := mem_singleton.mp new
        rcases mem_append.mp live' with old' | new'
        · exact absurd same.symm (ne_of_lt (sound.numbered other old'))
        · exact (mem_singleton.mp new').symm

theorem Catalog.Sound.rename (sound : c.Sound) {oldName newName : RepoName}
    (renamed : Renamed c.db db tenant oldName newName) : Catalog.Sound { c with db := db } := by
  have fromOld {row : RepoRow} (live : row ∈ db.repos) :
      ∃ before ∈ c.db.repos, row = before.moved tenant oldName newName := by
    rw [renamed.repos] at live
    obtain ⟨before, inside, same⟩ := mem_map.mp live
    exact ⟨before, inside, same.symm⟩
  constructor
  · exact kept_rename renamed sound.kept
  · intro link member row live
    obtain ⟨before, inside, rfl⟩ := fromOld live
    have linked := member
    rw [renamed.repoAliases, mem_aliasesAfterRename] at linked
    apply Bool.eq_false_iff.mpr
    intro named
    rcases linked with rfl | ⟨earlier, there, outside, _, rfl⟩
    · -- the old name: its row moved away, and the new name is another
      rcases RepoRow.of_moved named with ⟨own, other⟩ | ⟨old, _, same⟩
      · rw [other] at own
        cases own
      · simp only at same
        rw [same, renamed.free before inside] at old
        cases old
    · rw [(flattened_key earlier).1, (flattened_key earlier).2] at named
      rcases RepoRow.of_moved named with ⟨own, _⟩ | ⟨_, sameTenant, sameName⟩
      · rw [sound.unaliased earlier there before inside] at own
        cases own
      · rw [from_iff.mpr ⟨sameTenant, sameName⟩] at outside
        cases outside
  · intro row live
    obtain ⟨before, inside, rfl⟩ := fromOld live
    rw [RepoRow.moved_identity]
    exact sound.numbered before inside
  · intro row live other live' same
    obtain ⟨before, inside, rfl⟩ := fromOld live
    obtain ⟨before', inside', rfl⟩ := fromOld live'
    rw [RepoRow.moved_identity, RepoRow.moved_identity] at same
    rw [sound.distinct before inside before' inside' same]

theorem Catalog.sound_after (backend : Backend) (sound : c.Sound) (call : NameCall) :
    (c.after backend call).Sound := by
  cases call with
  | registerRepo tenant name =>
    unfold Catalog.after
    dsimp only
    cases done : c.db.registerRepo tenant name c.registered with
    | error error => exact sound
    | ok result => exact sound.register done
  | renameRepo tenant oldName newName =>
    unfold Catalog.after
    dsimp only
    cases done : c.db.renameRepo tenant oldName newName with
    | error error => exact sound
    | ok db => exact sound.rename (renameRepo_ok done)
  | deleteRepoCascade tenant repo => exact sound.delete backend
  | removeAlias tenant oldName => exact sound.removeAlias

theorem Catalog.run_sound {backend : Backend} {events : List (Event Catalog NameCall)}
    (run : Run (Catalog.Step backend) .empty events c) : c.Sound := by
  have keep (c : Catalog) (call : NameCall) (c' : Catalog) (sound : c.Sound) (_ : True)
      (taken : Catalog.Step backend c call c') : c'.Sound := by
    rw [show c' = _ from taken]
    exact Catalog.sound_after backend sound call
  exact run.invariant Catalog.sound_empty keep fun _ _ => trivial

end Steps

section Earlier

/-- The name was given up by the repository with that number, and leads to it while it is live. -/
structure Catalog.LeadsTo (c : Catalog) (tenant : Tenant) (name : RepoName) (identity : Identity) :
    Prop where
  free : c.db.repo tenant name = none
  numbered : identity < c.registered
  linked : ∀ row ∈ c.db.repos, row.identity = identity →
    row.tenant = tenant ∧ ⟨tenant, name, row.name⟩ ∈ c.db.repoAliases

variable {c : Catalog} {tenant : Tenant} {name : RepoName} {identity : Identity}

variable {db : Database} {tenant' : Tenant} {oldName : RepoName} {call : NameCall}

theorem Kept.resolveAlias_iff (kept : Kept db) {target : RepoName} :
    db.resolveAlias tenant name = some target ↔ ⟨tenant, name, target⟩ ∈ db.repoAliases := by
  unfold resolveAlias
  constructor
  · intro found
    obtain ⟨⟨linkTenant, oldName, targetName⟩, first, rfl⟩ := Option.map_eq_some_iff.mp found
    obtain ⟨rfl, rfl⟩ := AliasRow.from_iff.mp (List.find?_some first)
    exact List.mem_of_find?_eq_some first
  · intro member
    cases first : db.repoAliases.find? (AliasRow.from tenant name) with
    | none =>
      have absent := List.find?_eq_none.mp first _ member
      simp [AliasRow.from] at absent
    | some link =>
      obtain ⟨sameTenant, sameName⟩ := AliasRow.from_iff.mp (List.find?_some first)
      rw [kept.aliasKeys link (List.mem_of_find?_eq_some first) _ member sameTenant sameName]
      rfl

variable {backend : Backend}

section

variable (leads : c.LeadsTo tenant name identity)

include leads

theorem Catalog.LeadsTo.removeAlias (other : ¬(tenant' = tenant ∧ oldName = name)) :
    Catalog.LeadsTo { c with db := c.db.removeAlias tenant' oldName } tenant name identity where
  free := leads.free
  numbered := leads.numbered
  linked := by
    intro row live same
    obtain ⟨sameTenant, linked⟩ := leads.linked row live same
    refine ⟨sameTenant, mem_filter.mpr ⟨linked, ?_⟩⟩
    simp only [Bool.not_eq_true']
    apply Bool.eq_false_iff.mpr
    intro matched
    obtain ⟨rfl, rfl⟩ := from_iff.mp matched
    exact other ⟨rfl, rfl⟩

theorem Catalog.LeadsTo.register {name' : RepoName} {inserted : Bool}
    (ok : c.db.registerRepo tenant' name' c.registered = .ok (inserted, db))
    (free : db.repo tenant name = none) :
    Catalog.LeadsTo ⟨db, c.registered + 1⟩ tenant name identity := by
  have next := registerRepo_ok ok
  subst next
  cases present : c.db.repo tenant' name' with
  | some row =>
    have other : ¬(tenant' = tenant ∧ name' = name) := by
      rintro ⟨rfl, rfl⟩
      cases present.symm.trans leads.free
    have kept := leads.removeAlias other
    exact ⟨kept.free, Nat.lt_succ_of_lt kept.numbered, kept.linked⟩
  | none =>
    simp only [present] at free ⊢
    have added : (⟨tenant', name', false, c.registered⟩ : RepoRow) ∈
        ((addRepo c.db ⟨tenant', name', false, c.registered⟩).removeAlias tenant' name').repos :=
      mem_append_right _ (mem_singleton_self _)
    have other : ¬(tenant' = tenant ∧ name' = name) := by
      rintro ⟨rfl, rfl⟩
      have gone := repo_eq_none_iff.mp free _ added
      simp [RepoRow.of] at gone
    have kept := leads.removeAlias other
    refine ⟨free, Nat.lt_succ_of_lt kept.numbered, ?_⟩
    intro row live same
    rcases mem_append.mp live with old | new
    · exact kept.linked row old same
    · obtain rfl := mem_singleton.mp new
      exact absurd same (ne_of_gt leads.numbered)

theorem Catalog.LeadsTo.rename {newName : RepoName}
    (renamed : Renamed c.db db tenant' oldName newName) (free : db.repo tenant name = none) :
    Catalog.LeadsTo { c with db := db } tenant name identity := by
  have notNew : ¬(tenant = tenant' ∧ name = newName) := by
    rintro ⟨rfl, rfl⟩
    obtain ⟨row, live, named⟩ := renamed.registered
    obtain ⟨moved, live', _, here⟩ := renamed.live live named
    rw [if_pos ⟨rfl, rfl⟩, repo_eq_none_iff.mp free moved live'] at here
    cases here
  have notOld : ¬(tenant = tenant' ∧ name = oldName) := by
    rintro ⟨rfl, rfl⟩
    obtain ⟨row, live, named⟩ := renamed.registered
    rw [repo_eq_none_iff.mp leads.free row live] at named
    cases named
  refine ⟨free, leads.numbered, ?_⟩
  intro row live same
  rw [renamed.repos] at live
  obtain ⟨before, inside, rfl⟩ := mem_map.mp live
  rw [RepoRow.moved_identity] at same
  obtain ⟨sameTenant, linked⟩ := leads.linked before inside same
  have flattened : (⟨tenant, name, (before.moved tenant' oldName newName).name⟩ : AliasRow) =
      AliasRow.flattened tenant' oldName newName ⟨tenant, name, before.name⟩ := by
    subst sameTenant
    have aligned : AliasRow.to tenant' oldName ⟨before.tenant, name, before.name⟩ =
        before.of tenant' oldName := rfl
    rw [AliasRow.flattened, aligned, RepoRow.moved]
    split <;> rfl
  constructor
  · unfold RepoRow.moved
    split <;> exact sameTenant
  · rw [renamed.repoAliases, mem_aliasesAfterRename]
    refine .inr ⟨⟨tenant, name, before.name⟩, linked, ?_, ?_, flattened⟩
    · exact Bool.eq_false_iff.mpr fun matched => notNew (AliasRow.from_iff.mp matched)
    · exact Bool.eq_false_iff.mpr fun matched => notOld (AliasRow.from_iff.mp matched)

theorem Catalog.LeadsTo.delete {repo : RepoName} (other : ¬(tenant' = tenant ∧ repo = name)) :
    Catalog.LeadsTo { c with db := deleteRepoCascade backend c.db tenant' repo } tenant name
      identity := by
  constructor
  · apply repo_eq_none_iff.mpr
    intro row live
    rw [deleteRepoCascade_eq] at live
    exact repo_eq_none_iff.mp leads.free row (mem_of_mem_filter live)
  · exact leads.numbered
  · intro row live same
    rw [deleteRepoCascade_eq] at live ⊢
    obtain ⟨inside, stays⟩ := mem_filter.mp live
    obtain ⟨sameTenant, linked⟩ := leads.linked row inside same
    refine ⟨sameTenant, mem_filter.mpr ⟨linked, ?_⟩⟩
    subst sameTenant
    -- the alias goes with its own name, which is another, or with its repository, which stays
    have notFrom : AliasRow.from tenant' repo ⟨row.tenant, name, row.name⟩ = false := by
      apply Bool.eq_false_iff.mpr
      intro matched
      obtain ⟨rfl, rfl⟩ := AliasRow.from_iff.mp matched
      exact other ⟨rfl, rfl⟩
    simp only [notFrom]
    exact stays

theorem Catalog.LeadsTo.after (free : (c.after backend call).db.repo tenant name = none)
    (notRemoved : call ≠ .removeAlias tenant name)
    (notDeleted : call ≠ .deleteRepoCascade tenant name) :
    (c.after backend call).LeadsTo tenant name identity := by
  cases call with
  | registerRepo tenant' name' =>
    unfold Catalog.after at free ⊢
    dsimp only at free ⊢
    cases done : c.db.registerRepo tenant' name' c.registered with
    | error error => exact leads
    | ok result =>
      rw [done] at free
      exact leads.register done free
  | renameRepo tenant' oldName newName =>
    unfold Catalog.after at free ⊢
    dsimp only at free ⊢
    cases done : c.db.renameRepo tenant' oldName newName with
    | error error => exact leads
    | ok db =>
      rw [done] at free
      exact leads.rename (renameRepo_ok done) free
  | deleteRepoCascade tenant' repo =>
    apply leads.delete
    rintro ⟨rfl, rfl⟩
    exact notDeleted rfl
  | removeAlias tenant' oldName =>
    apply leads.removeAlias
    rintro ⟨rfl, rfl⟩
    exact notRemoved rfl

end

/-- A repository gives up its name by a rename, which leaves the alias, or is deleted. -/
theorem Catalog.LeadsTo.of_given_up (sound : c.Sound) {old : RepoRow}
    (was : c.db.repo tenant name = some old)
    (free : (c.after backend call).db.repo tenant name = none) :
    (c.after backend call).LeadsTo tenant name old.identity := by
  obtain ⟨live, named⟩ := mem_of_repo was
  have numbered := sound.numbered old live
  -- a row that still has the name contradicts that the name is free
  have gone {db : Database} (free : db.repo tenant name = none) (stays : old ∈ db.repos) : False := by
    rw [repo_eq_none_iff.mp free old stays] at named
    cases named
  cases call with
  | registerRepo tenant' name' =>
    unfold Catalog.after at free ⊢
    dsimp only at free ⊢
    cases done : c.db.registerRepo tenant' name' c.registered with
    | error error =>
      rw [done] at free
      exact (gone free live).elim
    | ok result =>
      rw [done] at free
      have next := registerRepo_ok done
      refine (gone free ?_).elim
      change old ∈ result.2.repos
      rw [next]
      cases (c.db.repo tenant' name').isNone with
      | true => exact mem_append_left _ live
      | false => exact live
  | renameRepo tenant' oldName newName =>
    unfold Catalog.after at free ⊢
    dsimp only at free ⊢
    cases done : c.db.renameRepo tenant' oldName newName with
    | error error =>
      rw [done] at free
      exact (gone free live).elim
    | ok db =>
      rw [done] at free
      have renamed := renameRepo_ok done
      obtain ⟨moved, live', _, here⟩ := renamed.live live named
      by_cases own : tenant = tenant' ∧ name = oldName
      · obtain ⟨rfl, rfl⟩ := own
        refine ⟨free, numbered, ?_⟩
        intro row inside same
        rw [renamed.repos] at inside
        obtain ⟨before, inside', rfl⟩ := mem_map.mp inside
        rw [RepoRow.moved_identity] at same
        obtain rfl := sound.distinct before inside' old live same
        rw [RepoRow.moved, if_pos named, renamed.repoAliases]
        exact ⟨(RepoRow.of_iff.mp named).1, mem_aliasesAfterRename.mpr (.inl rfl)⟩
      · rw [if_neg own, repo_eq_none_iff.mp free moved live'] at here
        cases here
  | deleteRepoCascade tenant' repo =>
    refine ⟨free, numbered, ?_⟩
    intro row inside same
    unfold Catalog.after at free inside
    dsimp only at free inside
    have stays := inside
    rw [deleteRepoCascade_eq] at inside
    obtain rfl := sound.distinct row (mem_of_mem_filter inside) old live same
    exact (gone free stays).elim
  | removeAlias tenant' oldName => exact (gone free live).elim

/-- Calls that leave the name alone: nobody takes it, and neither it nor its alias is removed. -/
def LeavesAlone (tenant : Tenant) (name : RepoName) (e : Event Catalog NameCall) : Prop :=
  e.post.db.repo tenant name = none ∧ e.label ≠ .removeAlias tenant name ∧
    e.label ≠ .deleteRepoCascade tenant name

theorem Catalog.LeadsTo.run {start : Catalog} {events : List (Event Catalog NameCall)}
    (leads : start.LeadsTo tenant name identity) (run : Run (Catalog.Step backend) start events c)
    (alone : ∀ e ∈ events, LeavesAlone tenant name e) : c.LeadsTo tenant name identity := by
  refine run.invariant (I := fun c => c.LeadsTo tenant name identity) leads ?_ alone
  rintro c call c' leads ⟨free, notRemoved, notDeleted⟩ taken
  rw [show c' = _ from taken] at free ⊢
  exact leads.after free notRemoved notDeleted

end Earlier

/-- Every alias points at a live repository, and resolving it is one step: no live repository has
an alias as its name, so what it resolves to is not an alias again. -/
structure AliasTable (db : Database) : Prop where
  targets : ∀ link ∈ db.repoAliases, ∃ row, db.repo link.tenant link.targetName = some row
  shadowless : ∀ link ∈ db.repoAliases, db.repo link.tenant link.oldName = none
  oneStep : ∀ tenant name target, db.resolveAlias tenant name = some target →
    db.resolveAlias tenant target = none

theorem Catalog.Sound.aliasTable {c : Catalog} (sound : c.Sound) : AliasTable c.db := by
  have shadowless : ∀ link ∈ c.db.repoAliases, c.db.repo link.tenant link.oldName = none :=
    fun link member => repo_eq_none_iff.mpr (sound.unaliased link member)
  have targets : ∀ link ∈ c.db.repoAliases,
      ∃ row, c.db.repo link.tenant link.targetName = some row := by
    intro link member
    obtain ⟨row, live, named⟩ := sound.kept.aliasesLive link member
    exact ⟨row, sound.kept.repo_of_mem live named⟩
  refine ⟨targets, shadowless, ?_⟩
  intro tenant name target resolved
  cases again : c.db.resolveAlias tenant target with
  | none => rfl
  | some further =>
    obtain ⟨row, registered⟩ := targets _ (sound.kept.resolveAlias_iff.mp resolved)
    cases (shadowless _ (sound.kept.resolveAlias_iff.mp again)).symm.trans registered

/-- After any history from empty tables the aliases are an alias table, and a name that a
repository gave up and that was left alone since resolves to what the repository is called now. -/
theorem earlier_names_resolve (backend : Backend) {events : List (Event Catalog NameCall)}
    {c : Catalog} (run : Run (Catalog.Step backend) .empty events c) :
    AliasTable c.db ∧
    ∀ later earlier e tenant name old, events = later ++ e :: earlier →
      e.pre.db.repo tenant name = some old → e.post.db.repo tenant name = none →
      (∀ x ∈ later, LeavesAlone tenant name x) →
      ∀ row ∈ c.db.repos, row.identity = old.identity →
        row.tenant = tenant ∧ c.db.resolveAlias tenant name = some row.name := by
  have sound := Catalog.run_sound run
  refine ⟨sound.aliasTable, ?_⟩
  rintro later earlier ⟨pre, call, post⟩ tenant name old rfl was free alone row live same
  obtain ⟨taken, before, after⟩ := run.split
  obtain rfl : post = pre.after backend call := taken
  have left := Catalog.LeadsTo.of_given_up (Catalog.run_sound before) was free
  obtain ⟨sameTenant, linked⟩ := (left.run after alone).linked row live same
  exact ⟨sameTenant, sound.kept.resolveAlias_iff.mpr linked⟩

def registeredFirst : Catalog := Catalog.empty.after .sqlite (.registerRepo "acme" "website")

def renamedFirst : Catalog := registeredFirst.after .sqlite (.renameRepo "acme" "website" "site")

theorem run_renamedFirst :
    Run (Catalog.Step .sqlite) .empty
      [⟨registeredFirst, .renameRepo "acme" "website" "site", renamedFirst⟩,
        ⟨.empty, .registerRepo "acme" "website", registeredFirst⟩] renamedFirst :=
  (Run.nil.next rfl).next rfl

def renamedTwice : Catalog := renamedFirst.after .sqlite (.renameRepo "acme" "site" "home")

theorem website_resolves_to_home :
    AliasTable renamedTwice.db ∧ renamedTwice.db.repos = [⟨"acme", "home", false, 0⟩] ∧
      ∀ row ∈ renamedTwice.db.repos, row.identity = 0 →
        row.tenant = "acme" ∧ renamedTwice.db.resolveAlias "acme" "website" = some row.name := by
  have run : Run (Catalog.Step .sqlite) .empty _ renamedTwice := run_renamedFirst.next rfl
  obtain ⟨table, earlier⟩ := earlier_names_resolve .sqlite run
  refine ⟨table, by decide +kernel, ?_⟩
  exact earlier [_] _ _ "acme" "website" ⟨"acme", "website", false, 0⟩ rfl (by decide +kernel)
    (by decide +kernel) (List.forall_mem_singleton.mpr ⟨by decide +kernel, by simp, by simp⟩)

/-- Deleting under the old name takes the alias although no repository has that name: the renamed
repository is still there, and its earlier name resolves to nothing. -/
theorem deleted_alias_resolves_to_nothing :
    ∃ c, Run (Catalog.Step .sqlite) .empty
        [⟨renamedFirst, .deleteRepoCascade "acme" "website", c⟩,
          ⟨registeredFirst, .renameRepo "acme" "website" "site", renamedFirst⟩,
          ⟨.empty, .registerRepo "acme" "website", registeredFirst⟩] c ∧
      registeredFirst.db.repo "acme" "website" = some ⟨"acme", "website", false, 0⟩ ∧
      renamedFirst.db.repo "acme" "website" = none ∧
      c.db.repos = [⟨"acme", "site", false, 0⟩] ∧
      c.db.resolveAlias "acme" "website" = none :=
  ⟨_, run_renamedFirst.next rfl, by decide +kernel⟩

end BucketVcs.Auth
