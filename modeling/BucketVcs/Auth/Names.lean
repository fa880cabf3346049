import BucketVcs.Auth.Database

/-! Names of repositories: what a name leads to, directly or through an alias, and how it
changes with the registrations, renames and deletions. -/

namespace BucketVcs.Auth

open Database List Option AliasRow RepoRow

section Resolution

/-- The repositories that a name can lead to. -/
structure Behind (db : Database) (tenant : Tenant) (name : RepoName) (row : RepoRow) : Prop where
  live : row ∈ db.repos
  named : row.of tenant name = true ∨
    (∀ other ∈ db.repos, other.of tenant name = false) ∧
      ∃ link ∈ db.repoAliases, link.from tenant name = true ∧ row.of tenant link.targetName = true

variable {db : Database} {tenant : Tenant} {name : RepoName} {row : RepoRow}

theorem mem_of_repo (found : db.repo tenant name = some row) :
    row ∈ db.repos ∧ row.of tenant name = true :=
  ⟨List.mem_of_find?_eq_some found, List.find?_some found⟩

theorem repo_eq_none_iff :
    db.repo tenant name = none ↔ ∀ row ∈ db.repos, row.of tenant name = false := by
  simp [repo]

theorem behind_of_repo (found : db.repo tenant name = some row) : Behind db tenant name row :=
  ⟨(mem_of_repo found).1, .inl (mem_of_repo found).2⟩

theorem behind_of_alias {target : RepoName} (missing : db.repo tenant name = none)
    (followed : db.resolveAlias tenant name = some target)
    (found : db.repo tenant target = some row) : Behind db tenant name row := by
  obtain ⟨link, linked, rfl⟩ := map_eq_some_iff.mp followed
  refine ⟨(mem_of_repo found).1, .inr ⟨repo_eq_none_iff.mp missing, link, ?_, ?_, ?_⟩⟩
  · exact List.mem_of_find?_eq_some linked
  · exact List.find?_some linked
  · exact (mem_of_repo found).2

theorem repo_of_flags {flags : RepoFlags} (ok : db.getRepoFlags tenant name = .ok flags) :
    ∃ row, db.repo tenant name = some row := by
  unfold getRepoFlags at ok
  split at ok
  · rename_i row found
    exact ⟨row, found⟩
  · cases ok

theorem repo_of_noSuchRepo (missing : db.getRepoFlags tenant name = .error .noSuchRepo) :
    db.repo tenant name = none := by
  unfold getRepoFlags at missing
  split at missing
  · cases missing
  · assumption

end Resolution

section Keys

/-- What the keys of the tables, the rename and the cascade keep up: names are unique, an
alias points at a live repository, and a deploy key at the one it was made for. -/
structure Kept (db : Database) : Prop where
  repoKeys : ∀ row ∈ db.repos, ∀ other ∈ db.repos,
    row.tenant = other.tenant → row.name = other.name → row = other
  aliasKeys : ∀ link ∈ db.repoAliases, ∀ other ∈ db.repoAliases,
    link.tenant = other.tenant → link.oldName = other.oldName → link = other
  aliasesLive : ∀ link ∈ db.repoAliases, ∃ row ∈ db.repos, row.of link.tenant link.targetName = true
  keys : ∀ key ∈ db.sshKeys, ∀ scope, key.owner = .deploy scope →
    ∃ row ∈ db.repos, row.of scope.tenant scope.repo = true ∧ key.mintedFor = some row.identity

variable {tenant : Tenant} {name : RepoName} {row : RepoRow} {db : Database}

theorem RepoRow.of_iff : row.of tenant name = true ↔ row.tenant = tenant ∧ row.name = name := by
  simp [of]

theorem AliasRow.from_iff {link : AliasRow} :
    link.from tenant name = true ↔ link.tenant = tenant ∧ link.oldName = name := by
  simp [AliasRow.from]

theorem Kept.repo_eq (kept : Kept db) {other : RepoRow} (live : row ∈ db.repos)
    (named : row.of tenant name = true) (live' : other ∈ db.repos)
    (named' : other.of tenant name = true) : row = other := by
  obtain ⟨rfl, rfl⟩ := of_iff.mp named
  obtain ⟨sameTenant, sameName⟩ := of_iff.mp named'
  exact kept.repoKeys row live other live' sameTenant.symm sameName.symm

theorem Kept.repo_of_mem (kept : Kept db) (live : row ∈ db.repos)
    (named : row.of tenant name = true) : db.repo tenant name = some row := by
  cases found : db.repo tenant name with
  | none =>
    rw [repo_eq_none_iff.mp found row live] at named
    cases named
  | some other => rw [kept.repo_eq (mem_of_repo found).1 (mem_of_repo found).2 live named]

theorem Kept.resolve_of_behind (kept : Kept db) (behind : Behind db tenant name row) :
    db.resolve tenant name = some row := by
  rcases behind.named with own | ⟨missing, link, member, linked, target⟩
  · rw [resolve, kept.repo_of_mem behind.live own]
  · rw [Database.resolve, repo_eq_none_iff.mpr missing]
    cases found : db.repoAliases.find? (AliasRow.from tenant name) with
    | none =>
      rw [List.find?_eq_none] at found
      exact absurd linked (found link member)
    | some other =>
      obtain ⟨tenants, names⟩ := from_iff.mp linked
      obtain ⟨tenants', names'⟩ := from_iff.mp (List.find?_some found)
      obtain rfl := kept.aliasKeys link member other (List.mem_of_find?_eq_some found)
        (tenants.trans tenants'.symm) (names.trans names'.symm)
      simp only [resolveAlias, found]
      exact kept.repo_of_mem behind.live target

end Keys

section Removals

variable {db : Database} {tenant tenant' : Tenant} {name : RepoName} {row : RepoRow}

theorem kept_delete (kept : Kept db) (backend : Backend) (tenant : Tenant) (repo : RepoName) :
    Kept (deleteRepoCascade backend db tenant repo) := by
  rw [deleteRepoCascade_eq]
  constructor
  · intro row live other live'
    exact kept.repoKeys row (mem_of_mem_filter live) other (mem_of_mem_filter live')
  · intro link member other member'
    exact kept.aliasKeys link (mem_of_mem_filter member) other (mem_of_mem_filter member')
  · intro link member
    obtain ⟨inside, stays⟩ := mem_filter.mp member
    obtain ⟨row, live, named⟩ := kept.aliasesLive link inside
    refine ⟨row, mem_filter.mpr ⟨live, ?_⟩, named⟩
    obtain ⟨sameTenant, sameName⟩ := of_iff.mp named
    simp only [Bool.and_eq_true] at stays
    rw [of, sameTenant, sameName]
    exact stays.2
  · intro key member scope owner
    obtain ⟨inside, stays⟩ := mem_filter.mp member
    obtain ⟨row, live, named, minted⟩ := kept.keys key inside scope owner
    refine ⟨row, mem_filter.mpr ⟨live, ?_⟩, named, minted⟩
    obtain ⟨sameTenant, sameName⟩ := of_iff.mp named
    simpa [SshKeyRow.of, owner, of, sameTenant, sameName] using stays

theorem behind_delete {backend : Backend} {repo : RepoName}
    (behind : Behind (deleteRepoCascade backend db tenant repo) tenant' name row) :
    Behind db tenant' name row := by
  rw [deleteRepoCascade_eq] at behind
  obtain ⟨live, named⟩ := behind
  refine ⟨mem_of_mem_filter live, ?_⟩
  rcases named with own | ⟨missing, link, member, linked, target⟩
  · exact .inl own
  · obtain ⟨inside, stays⟩ := mem_filter.mp member
    refine .inr ⟨?_, link, inside, linked, target⟩
    intro other live'
    by_contra present
    rw [Bool.not_eq_false] at present
    -- a row that was deleted has the name that its alias was deleted with
    have removed : other.of tenant repo = true := by
      by_contra staying
      rw [missing other (mem_filter.mpr ⟨live', by simpa using staying⟩)] at present
      cases present
    obtain ⟨rfl, rfl⟩ := of_iff.mp present
    obtain ⟨rfl, rfl⟩ := of_iff.mp removed
    simp [linked] at stays

theorem kept_removeAlias (kept : Kept db) (tenant : Tenant) (oldName : RepoName) :
    Kept (db.removeAlias tenant oldName) := by
  constructor
  · exact kept.repoKeys
  · intro link member other member'
    exact kept.aliasKeys link (mem_of_mem_filter member) other (mem_of_mem_filter member')
  · intro link member
    exact kept.aliasesLive link (mem_of_mem_filter member)
  · exact kept.keys

theorem behind_removeAlias {oldName : RepoName}
    (behind : Behind (db.removeAlias tenant oldName) tenant' name row) :
    Behind db tenant' name row := by
  obtain ⟨live, named⟩ := behind
  refine ⟨live, named.imp_right ?_⟩
  rintro ⟨missing, link, member, linked, target⟩
  exact ⟨missing, link, mem_of_mem_filter member, linked, target⟩

end Removals

section Registration

variable {db : Database} {tenant : Tenant} {name : RepoName} {identity : Identity}

def addRepo (db : Database) (row : RepoRow) : Database := { db with repos := db.repos ++ [row] }

theorem registerRepo_ok {inserted : Bool} {after : Database}
    (ok : db.registerRepo tenant name identity = .ok (inserted, after)) :
    after =
      (if (db.repo tenant name).isNone then addRepo db ⟨tenant, name, false, identity⟩
        else db).removeAlias tenant name := by
  unfold registerRepo at ok
  split at ok
  · cases ok
  · obtain ⟨rfl, rfl⟩ := Prod.mk.inj (Except.ok.inj ok)
    cases (db.repo tenant name).isNone <;> rfl

theorem kept_addRepo (kept : Kept db) (free : db.repo tenant name = none) :
    Kept (addRepo db ⟨tenant, name, false, identity⟩) := by
  have absent := repo_eq_none_iff.mp free
  have apart {row : RepoRow} (live : row ∈ db.repos) (sameTenant : row.tenant = tenant)
      (sameName : row.name = name) : False := by
    have named := of_iff.mpr ⟨sameTenant, sameName⟩
    rw [absent row live] at named
    cases named
  constructor
  · intro row live other live' sameTenant sameName
    rcases mem_append.mp live with old | new
    · rcases mem_append.mp live' with old' | new'
      · exact kept.repoKeys row old other old' sameTenant sameName
      · obtain rfl := mem_singleton.mp new'
        exact (apart old sameTenant sameName).elim
    · obtain rfl := mem_singleton.mp new
      rcases mem_append.mp live' with old' | new'
      · exact (apart old' sameTenant.symm sameName.symm).elim
      · exact (mem_singleton.mp new').symm
  · exact kept.aliasKeys
  · intro link member
    obtain ⟨row, live, named⟩ := kept.aliasesLive link member
    exact ⟨row, mem_append_left _ live, named⟩
  · intro key member scope owner
    obtain ⟨row, live, named, minted⟩ := kept.keys key member scope owner
    exact ⟨row, mem_append_left _ live, named, minted⟩

theorem behind_addRepo (kept : Kept db) (free : db.repo tenant name = none) {tenant' : Tenant}
    {name' : RepoName} {row : RepoRow}
    (behind : Behind (addRepo db ⟨tenant, name, false, identity⟩) tenant' name' row) :
    Behind db tenant' name' row ∨ tenant' = tenant ∧ name' = name ∧ row.identity = identity := by
  obtain ⟨live, named⟩ := behind
  rcases named with own | ⟨missing, link, member, linked, target⟩
  · rcases mem_append.mp live with old | new
    · exact .inl ⟨old, .inl own⟩
    · obtain rfl := mem_singleton.mp new
      obtain ⟨rfl, rfl⟩ := of_iff.mp own
      exact .inr ⟨rfl, rfl, rfl⟩
  · rcases mem_append.mp live with old | new
    · refine .inl ⟨old, .inr ⟨?_, link, member, linked, target⟩⟩
      exact fun other inside => missing other (mem_append_left _ inside)
    · -- an alias to the new name would have been dangling before
      obtain rfl := mem_singleton.mp new
      obtain ⟨other, inside, here⟩ := kept.aliasesLive link member
      obtain ⟨rfl, rfl⟩ := of_iff.mp target
      rw [(from_iff.mp linked).1, repo_eq_none_iff.mp free other inside] at here
      cases here

end Registration

section Renaming

variable {db after : Database} {tenant : Tenant} {oldName newName : RepoName}

/-- What a rename does to the tables that name resolution and the deploy keys depend on. -/
structure Renamed (db after : Database) (tenant : Tenant) (oldName newName : RepoName) : Prop where
  registered : ∃ row ∈ db.repos, row.of tenant oldName = true
  free : ∀ row ∈ db.repos, row.of tenant newName = false
  repos : after.repos = db.repos.map (RepoRow.moved tenant oldName newName)
  repoAliases : after.repoAliases = aliasesAfterRename db.repoAliases tenant oldName newName
  sshKeys : after.sshKeys = db.sshKeys.map (SshKeyRow.moved tenant oldName newName)
  tokens : after.tokens = db.tokens

theorem renameRepo_ok (ok : db.renameRepo tenant oldName newName = .ok after) :
    Renamed db after tenant oldName newName := by
  unfold renameRepo at ok
  split at ok
  · cases ok
  split at ok
  · cases ok
  split at ok
  · cases ok
  split at ok
  · cases ok
  rename_i _ _ present absent
  obtain rfl := Except.ok.inj ok
  refine ⟨?_, ?_, rfl, rfl, rfl, rfl⟩
  · rw [isNone_iff_eq_none, ← Ne, ne_none_iff_exists'] at present
    obtain ⟨row, found⟩ := present
    exact ⟨row, mem_of_repo found⟩
  · exact repo_eq_none_iff.mp (not_isSome_iff_eq_none.mp absent)

@[simp] theorem RepoRow.moved_identity (row : RepoRow) :
    (row.moved tenant oldName newName).identity = row.identity := by
  unfold moved
  split <;> rfl

variable {row : RepoRow} {tenant' : Tenant} {name : RepoName}

theorem RepoRow.of_moved (named : (row.moved tenant oldName newName).of tenant' name = true) :
    row.of tenant' name = true ∧ row.of tenant oldName = false ∨
      row.of tenant oldName = true ∧ tenant' = tenant ∧ name = newName := by
  unfold moved at named
  split at named
  · rename_i renamed
    obtain ⟨rfl, rfl⟩ := of_iff.mp named
    exact .inr ⟨renamed, (of_iff.mp renamed).1, rfl⟩
  · rename_i other
    exact .inl ⟨named, by simpa using other⟩

theorem RepoRow.moved_of_old (named : row.of tenant oldName = true) :
    (row.moved tenant oldName newName).of tenant newName = true := by
  rw [moved, if_pos named]
  exact of_iff.mpr ⟨(of_iff.mp named).1, rfl⟩

theorem RepoRow.moved_of_ne (other : row.of tenant oldName = false) :
    row.moved tenant oldName newName = row := by
  simp [moved, other]

theorem AliasRow.flattened_key (link : AliasRow) :
    (link.flattened tenant oldName newName).tenant = link.tenant ∧
      (link.flattened tenant oldName newName).oldName = link.oldName := by
  unfold flattened
  split <;> exact ⟨rfl, rfl⟩

theorem mem_aliasesAfterRename {aliases : List AliasRow} {link : AliasRow} :
    link ∈ aliasesAfterRename aliases tenant oldName newName ↔
      link = ⟨tenant, oldName, newName⟩ ∨
        ∃ before ∈ aliases, before.from tenant newName = false ∧ before.from tenant oldName = false ∧
          link = before.flattened tenant oldName newName := by
  have untouched (before : AliasRow) :
      (before.flattened tenant oldName newName).from tenant oldName = before.from tenant oldName := by
    rw [AliasRow.from, AliasRow.from, (AliasRow.flattened_key before).1,
      (AliasRow.flattened_key before).2]
  simp only [aliasesAfterRename, List.mem_cons, List.mem_filter, List.mem_map, Bool.not_eq_true']
  refine or_congr_right ⟨?_, ?_⟩
  · rintro ⟨⟨before, ⟨member, outside⟩, rfl⟩, other⟩
    exact ⟨before, member, outside, untouched before ▸ other, rfl⟩
  · rintro ⟨before, member, outside, other, rfl⟩
    exact ⟨⟨before, ⟨member, outside⟩, rfl⟩, (untouched before).trans other⟩

section

variable (renamed : Renamed db after tenant oldName newName)

include renamed

theorem Renamed.live (live : row ∈ db.repos) (named : row.of tenant' name = true) :
    ∃ moved ∈ after.repos, moved.identity = row.identity ∧
      moved.of tenant' (if tenant' = tenant ∧ name = oldName then newName else name) = true := by
  refine ⟨row.moved tenant oldName newName, ?_, moved_identity row, ?_⟩
  · rw [renamed.repos]
    exact List.mem_map_of_mem live
  · obtain ⟨rfl, rfl⟩ := of_iff.mp named
    split
    · rename_i same
      rw [same.1]
      exact moved_of_old (of_iff.mpr same)
    · rename_i other
      rw [moved_of_ne]
      · exact named
      · exact Bool.eq_false_iff.mpr fun renamed => other (of_iff.mp renamed)

theorem Renamed.repoKeys (kept : Kept db) {other : RepoRow} (live : row ∈ after.repos)
    (live' : other ∈ after.repos) (sameTenant : row.tenant = other.tenant)
    (sameName : row.name = other.name) : row = other := by
  rw [renamed.repos] at live live'
  obtain ⟨row, inside, rfl⟩ := List.mem_map.mp live
  obtain ⟨other, inside', rfl⟩ := List.mem_map.mp live'
  have named := of_moved (of_iff.mpr ⟨sameTenant, sameName⟩)
  have named' := of_moved
    (of_iff.mpr ⟨rfl, rfl⟩ : (other.moved tenant oldName newName).of _ _ = true)
  rcases named with ⟨own, _⟩ | ⟨old, tenants, names⟩
  · rcases named' with ⟨own', _⟩ | ⟨_, tenants', names'⟩
    · rw [kept.repo_eq inside own inside' own']
    · rw [tenants', names', renamed.free row inside] at own
      cases own
  · rcases named' with ⟨own', _⟩ | ⟨old', _, _⟩
    · rw [tenants, names, renamed.free other inside'] at own'
      cases own'
    · rw [kept.repo_eq inside old inside' old']

theorem kept_rename (kept : Kept db) : Kept after := by
  constructor
  · exact fun row live other live' => renamed.repoKeys kept live live'
  · intro link member other member' sameTenant sameName
    rw [renamed.repoAliases, mem_aliasesAfterRename] at member member'
    rcases member with rfl | ⟨before, inside, _, outside, rfl⟩
    · rcases member' with rfl | ⟨before', _, _, outside', rfl⟩
      · rfl
      · rw [(AliasRow.flattened_key before').1] at sameTenant
        rw [(AliasRow.flattened_key before').2] at sameName
        rw [AliasRow.from_iff.mpr ⟨sameTenant.symm, sameName.symm⟩] at outside'
        cases outside'
    · rw [(AliasRow.flattened_key before).1] at sameTenant
      rw [(AliasRow.flattened_key before).2] at sameName
      rcases member' with rfl | ⟨before', inside', _, _, rfl⟩
      · rw [AliasRow.from_iff.mpr ⟨sameTenant, sameName⟩] at outside
        cases outside
      · rw [(AliasRow.flattened_key before').1] at sameTenant
        rw [(AliasRow.flattened_key before').2] at sameName
        rw [kept.aliasKeys before inside before' inside' sameTenant sameName]
  · intro link member
    rw [renamed.repoAliases, mem_aliasesAfterRename] at member
    rcases member with rfl | ⟨before, inside, _, _, rfl⟩
    · obtain ⟨row, live, named⟩ := renamed.registered
      obtain ⟨moved, live', _, named'⟩ := renamed.live live named
      rw [if_pos ⟨rfl, rfl⟩] at named'
      exact ⟨moved, live', named'⟩
    · obtain ⟨row, live, named⟩ := kept.aliasesLive before inside
      obtain ⟨moved, live', _, named'⟩ := renamed.live live named
      refine ⟨moved, live', ?_⟩
      unfold AliasRow.flattened
      split
      · rename_i followed
        rw [if_pos (by simpa [AliasRow.to] using followed)] at named'
        exact named'
      · rename_i other
        rw [if_neg (by simpa [AliasRow.to] using other)] at named'
        exact named'
  · intro key member scope owner
    rw [renamed.sshKeys] at member
    obtain ⟨before, inside, rfl⟩ := List.mem_map.mp member
    unfold SshKeyRow.moved at owner ⊢
    split at owner
    · rename_i user
      rw [user] at owner
      cases owner
    · rename_i old deployed
      obtain ⟨row, live, named, minted⟩ := kept.keys before inside old deployed
      obtain ⟨moved, live', identity, named'⟩ := renamed.live live named
      split at owner
      · rename_i followed
        cases owner
        rw [if_pos followed]
        rw [if_pos (by simpa [SshKeyRow.of, deployed] using followed)] at named'
        exact ⟨moved, live', named', minted.trans (congrArg some identity.symm)⟩
      · rename_i other
        rw [deployed] at owner
        cases owner
        rw [if_neg other]
        rw [if_neg (by simpa [SshKeyRow.of, deployed] using other)] at named'
        exact ⟨moved, live', named', minted.trans (congrArg some identity.symm)⟩

theorem Renamed.target (kept : Kept db) {before : AliasRow} (inside : before ∈ db.repoAliases)
    (live : row ∈ db.repos) (target : (row.moved tenant oldName newName).of before.tenant
      (before.flattened tenant oldName newName).targetName = true) :
    row.of before.tenant before.targetName = true := by
  obtain ⟨lively, present, here⟩ := kept.aliasesLive before inside
  by_cases followed : before.to tenant oldName = true
  · obtain ⟨sameTenant, sameName⟩ : before.tenant = tenant ∧ before.targetName = oldName := by
      simpa [AliasRow.to] using followed
    rw [AliasRow.flattened, if_pos followed, sameTenant] at target
    rcases RepoRow.of_moved target with ⟨own, _⟩ | ⟨old, _, _⟩
    · rw [renamed.free row live] at own
      cases own
    · rw [sameTenant, sameName]
      exact old
  · rw [AliasRow.flattened, if_neg followed] at target
    rcases RepoRow.of_moved target with ⟨own, _⟩ | ⟨_, sameTenant, sameName⟩
    · exact own
    · -- no alias pointed at the new name, which was free
      rw [sameTenant, sameName, renamed.free lively present] at here
      cases here

theorem behind_rename (kept : Kept db) (behind : Behind after tenant' name row) :
    (∃ before, Behind db tenant' name before ∧ before.identity = row.identity) ∨
      tenant' = tenant ∧ name = newName ∧
        ∃ before, db.repo tenant oldName = some before ∧ before.identity = row.identity := by
  obtain ⟨live, named⟩ := behind
  have gone (elsewhere : ¬(tenant' = tenant ∧ name = oldName))
      (missing : ∀ other ∈ after.repos, other.of tenant' name = false) :
      ∀ other ∈ db.repos, other.of tenant' name = false := by
    intro other inside
    by_contra present
    obtain ⟨moved, live', _, here⟩ := renamed.live inside (Bool.not_eq_false _ ▸ present)
    rw [if_neg elsewhere, missing moved live'] at here
    cases here
  rw [renamed.repos] at live
  obtain ⟨before, inside, rfl⟩ := List.mem_map.mp live
  rcases named with own | ⟨missing, link, member, linked, target⟩
  · rcases of_moved own with ⟨here, _⟩ | ⟨old, sameTenant, sameName⟩
    · exact .inl ⟨before, ⟨inside, .inl here⟩, (moved_identity before).symm⟩
    · exact .inr ⟨sameTenant, sameName, before, kept.repo_of_mem inside old,
        (moved_identity before).symm⟩
  · rw [renamed.repoAliases, mem_aliasesAfterRename] at member
    refine .inl ⟨before, ⟨inside, ?_⟩, (moved_identity before).symm⟩
    rcases member with rfl | ⟨link, linkInside, _, outside, rfl⟩
    · obtain ⟨rfl, rfl⟩ := from_iff.mp linked
      rcases of_moved target with ⟨own, _⟩ | ⟨old, _, _⟩
      · rw [renamed.free before inside] at own
        cases own
      · exact .inl old
    · rw [from_iff, (flattened_key link).1, (flattened_key link).2] at linked
      obtain ⟨rfl, rfl⟩ := linked
      have elsewhere : ¬(link.tenant = tenant ∧ link.oldName = oldName) := by
        intro same
        rw [from_iff.mpr same] at outside
        cases outside
      refine .inr ⟨gone elsewhere missing, link, linkInside, from_iff.mpr ⟨rfl, rfl⟩, ?_⟩
      exact renamed.target kept linkInside inside target

end

end Renaming

end BucketVcs.Auth
