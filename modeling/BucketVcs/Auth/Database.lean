import BucketVcs.Auth
import BucketVcs.Engines

/-! The tables of the credential store, how a credential is verified against them, and the
registration, renaming and deletion of repositories. -/

namespace BucketVcs.Auth

open Engines List

/-- Unix time. -/
abbrev Seconds := ℤ

abbrev KeyID := String
abbrev Fingerprint := String

/-- Tells a repository from every other one, also from a later one of its name. No column of
the source holds it. -/
abbrev Identity := ℕ

section Tables

structure UserRow where
  id : UserID
  name : Username
  isAdmin : Bool
  disabledAt : Option Seconds
  deriving DecidableEq, Repr

structure TokenRow where
  id : TokenID
  userID : UserID
  secretHash : String
  label : String
  expiresAt : Option Seconds
  revokedAt : Option Seconds
  /-- These three are empty unless the token is bound to a repository. -/
  scopeTenant : Tenant
  scopeRepo : RepoName
  scopePerm : String
  /-- The repository that the name of the binding led to when the token was made. -/
  mintedFor : Option Identity
  deriving DecidableEq, Repr

structure RepoRow where
  tenant : Tenant
  name : RepoName
  publicRead : Bool
  identity : Identity
  deriving DecidableEq, Repr

structure PermissionRow where
  userID : UserID
  tenant : Tenant
  repo : RepoName
  perm : Perm
  deriving DecidableEq, Repr

/-- A key belongs to a user or is bound to a repository, as the check on its table says. -/
inductive KeyOwner where
  | user (id : UserID)
  | deploy (scope : Scope)
  deriving DecidableEq, Repr

structure SshKeyRow where
  id : KeyID
  fingerprint : Fingerprint
  label : String
  owner : KeyOwner
  revokedAt : Option Seconds
  /-- The repository that a deploy key was made for. -/
  mintedFor : Option Identity
  deriving DecidableEq, Repr

/-- A row that names a repository, in a table of which no other column matters here. -/
structure ChildRow where
  id : String
  tenant : Tenant
  repo : RepoName
  deriving DecidableEq, Repr

structure ClaimRow where
  ruleID : String
  name : String
  value : String
  deriving DecidableEq, Repr

structure DeliveryRow where
  id : String
  parentID : String
  deriving DecidableEq, Repr

structure AliasRow where
  tenant : Tenant
  oldName : RepoName
  targetName : RepoName
  deriving DecidableEq, Repr

structure SessionRow where
  idHash : String
  userID : UserID
  createdAt : Seconds
  expiresAt : Seconds
  lastSeen : Seconds
  deriving DecidableEq, Repr

structure Database where
  users : List UserRow
  tokens : List TokenRow
  repos : List RepoRow
  repoPermissions : List PermissionRow
  sshKeys : List SshKeyRow
  lfsLocks : List ChildRow
  protectedRefs : List ChildRow
  webhookEndpoints : List ChildRow
  webhookDeliveries : List DeliveryRow
  protectedPaths : List ChildRow
  hooks : List ChildRow
  oidcTrustRules : List ChildRow
  oidcRuleClaims : List ClaimRow
  buildTriggers : List ChildRow
  buildTriggerDeliveries : List DeliveryRow
  repoAliases : List AliasRow
  sessions : List SessionRow
  deriving DecidableEq

def Database.empty : Database := ⟨[], [], [], [], [], [], [], [], [], [], [], [], [], [], [], [], []⟩

def ChildRow.of (tenant : Tenant) (repo : RepoName) (row : ChildRow) : Bool :=
  row.tenant = tenant && row.repo = repo

def RepoRow.of (tenant : Tenant) (name : RepoName) (row : RepoRow) : Bool :=
  row.tenant = tenant && row.name = name

def PermissionRow.of (tenant : Tenant) (repo : RepoName) (row : PermissionRow) : Bool :=
  row.tenant = tenant && row.repo = repo

def SshKeyRow.of (tenant : Tenant) (repo : RepoName) (row : SshKeyRow) : Bool :=
  match row.owner with
  | .user _ => false
  | .deploy scope => scope.tenant = tenant && scope.repo = repo

def AliasRow.from (tenant : Tenant) (name : RepoName) (row : AliasRow) : Bool :=
  row.tenant = tenant && row.oldName = name

def AliasRow.to (tenant : Tenant) (name : RepoName) (row : AliasRow) : Bool :=
  row.tenant = tenant && row.targetName = name

def ChildRow.moved (tenant : Tenant) (oldName newName : RepoName) (row : ChildRow) : ChildRow :=
  if row.of tenant oldName then { row with repo := newName } else row

def RepoRow.moved (tenant : Tenant) (oldName newName : RepoName) (row : RepoRow) : RepoRow :=
  if row.of tenant oldName then { row with name := newName } else row

def PermissionRow.moved (tenant : Tenant) (oldName newName : RepoName) (row : PermissionRow) :
    PermissionRow :=
  if row.of tenant oldName then { row with repo := newName } else row

def SshKeyRow.moved (tenant : Tenant) (oldName newName : RepoName) (row : SshKeyRow) : SshKeyRow :=
  match row.owner with
  | .user _ => row
  | .deploy scope =>
    if row.of tenant oldName then { row with owner := .deploy { scope with repo := newName } } else row

def AliasRow.flattened (tenant : Tenant) (oldName newName : RepoName) (row : AliasRow) : AliasRow :=
  if row.to tenant oldName then { row with targetName := newName } else row

end Tables

namespace Database

section Lookups

variable (db : Database)

def repo (tenant : Tenant) (name : RepoName) : Option RepoRow := db.repos.find? (RepoRow.of tenant name)

def getRepoFlags (tenant : Tenant) (name : RepoName) : Except Error RepoFlags :=
  match db.repo tenant name with
  | some row => .ok ⟨row.publicRead⟩
  | none => .error .noSuchRepo

def resolveAlias (tenant : Tenant) (name : RepoName) : Option RepoName :=
  (db.repoAliases.find? (AliasRow.from tenant name)).map AliasRow.targetName

def resolve (tenant : Tenant) (name : RepoName) : Option RepoRow :=
  match db.repo tenant name with
  | some row => some row
  | none => (db.resolveAlias tenant name).bind (db.repo tenant)

/-- `Store.LookupRepoPerm`: nobody has no permission and an administrator has all. -/
def lookupRepoPerm (actor : Option Actor) (tenant : Tenant) (repo : RepoName) : Perm :=
  match actor with
  | none => .none
  | some actor =>
    if actor.isAdmin then .admin
    else
      match db.repoPermissions.find? fun row => row.userID = actor.userID && row.of tenant repo with
      | some row => row.perm
      | none => .none

def user (id : UserID) : Option UserRow := db.users.find? fun row => row.id = id

end Lookups

/-- `auth.ParseToken` and `auth.VerifyHash`. -/
structure TokenCodec where
  parseToken : String → Option (TokenID × String)
  verifyHash : String → String → Bool

def boundScope (row : TokenRow) : Option Scope :=
  if row.scopeTenant ≠ "" ∧ row.scopeRepo ≠ "" then
    some ⟨row.scopeTenant, row.scopeRepo, if row.scopePerm = "write" then .write else .read⟩
  else none

def tokenUsable (row : TokenRow) (now : Seconds) : Bool :=
  row.revokedAt.isNone && row.expiresAt.all fun expires => now < expires

/-- The user behind a token. The name in the request is compared for an ordinary token; a
bound one goes into any user slot. -/
def tokenActor (db : Database) (row : TokenRow) (username : Username) : Except Error Verified :=
  match db.user row.userID with
  | none => .error .invalidCredential
  | some user =>
    if user.disabledAt.isSome then .error .userDisabled
    else
      match boundScope row with
      | some scope =>
        .ok ⟨⟨row.userID, if row.label = "" then "oidc" else row.label, false⟩, row.id, some scope⟩
      | none =>
        if username ≠ user.name then .error .invalidCredential
        else .ok ⟨⟨row.userID, user.name, user.isAdmin⟩, row.id, none⟩

def verifyBasicPassword (codec : TokenCodec) (db : Database) (now : Seconds)
    (credential : BasicPassword) : Except Error Verified :=
  match codec.parseToken credential.password with
  | none => .error .invalidCredential
  | some (tokenID, secret) =>
    match db.tokens.find? fun row => row.id = tokenID with
    | none => .error .invalidCredential
    | some row =>
      if row.revokedAt.isSome then .error .tokenRevoked
      else if row.expiresAt.any fun expires => expires ≤ now then .error .tokenExpired
      else if codec.verifyHash secret row.secretHash = false then .error .invalidCredential
      else tokenActor db row credential.username

/-- What a verified token stands for: it is usable, its user is there and enabled, and an
ordinary one was presented under the name of its user. -/
theorem verifyBasicPassword_ok {codec : TokenCodec} {db : Database} {now : Seconds}
    {credential : BasicPassword} {verified : Verified}
    (ok : verifyBasicPassword codec db now credential = .ok verified) :
    ∃ row ∈ db.tokens, ∃ user secret,
      codec.parseToken credential.password = some (row.id, secret) ∧
      tokenUsable row now = true ∧ db.user row.userID = some user ∧ user.disabledAt = none ∧
      verified.actor.userID = row.userID ∧ verified.tokenID = row.id ∧
      verified.scope = boundScope row ∧
      (boundScope row = none → credential.username = user.name) := by
  unfold verifyBasicPassword at ok
  split at ok
  · cases ok
  rename_i tokenID secret parsed
  split at ok
  · cases ok
  rename_i row found
  split at ok
  · cases ok
  split at ok
  · cases ok
  split at ok
  · cases ok
  have usable : tokenUsable row now = true := by
    cases expires : row.expiresAt <;> simp_all [tokenUsable]
  have named : row.id = tokenID := by simpa using List.find?_some found
  refine ⟨row, List.mem_of_find?_eq_some found, ?_⟩
  unfold tokenActor at ok
  split at ok
  · cases ok
  rename_i user owner
  split at ok
  · cases ok
  rename_i enabled
  have enabled : user.disabledAt = none := by simpa using enabled
  refine ⟨user, secret, named.symm ▸ parsed, usable, owner, enabled, ?_⟩
  split at ok
  · rename_i scope bound
    cases ok
    exact ⟨rfl, rfl, bound.symm, fun free => by rw [bound] at free; cases free⟩
  · rename_i bound
    split at ok
    · cases ok
    · rename_i same
      cases ok
      exact ⟨rfl, rfl, bound.symm, fun _ => not_not.mp same⟩

/-- `Store.verifySSHKey`: the actor and the scope that an SSH connection carries. -/
def verifySSHKey (db : Database) (fingerprint : Fingerprint) :
    Except Error (Actor × KeyID × Option Scope) :=
  match db.sshKeys.find? fun row => row.fingerprint = fingerprint with
  | none => .error .invalidCredential
  | some key =>
    if key.revokedAt.isSome then .error .tokenRevoked
    else
      match key.owner with
      | .user id =>
        match db.user id with
        -- a key whose user is gone joins with no columns
        | none => .ok (⟨"", "", false⟩, key.id, none)
        | some user =>
          if user.disabledAt.isSome then .error .userDisabled
          else .ok (⟨user.id, user.name, user.isAdmin⟩, key.id, none)
      | .deploy scope =>
        .ok (⟨"deploy:" ++ key.id,
          "deploy-key:" ++ (if key.label = "" then "(unlabeled)" else key.label), false⟩,
          key.id, some scope)

def store (codec : TokenCodec) (db : Database) (now : Seconds) : Store where
  verifyCredential := verifyBasicPassword codec db now
  getRepoFlags := db.getRepoFlags
  lookupRepoPerm := fun actor tenant repo => .ok (db.lookupRepoPerm actor tenant repo)
  resolveAlias := some fun tenant name => .ok (db.resolveAlias tenant name)

section Credentials

/-- `Store.CreateToken`; a taken id and an unknown user are refused. The token is for the
repository that its name leads to now. -/
def createToken (db : Database) (row : TokenRow) : Option Database :=
  if db.tokens.any (fun other => other.id = row.id) || (db.user row.userID).isNone then none
  else
    some { db with
      tokens := db.tokens ++
        [{ row with mintedFor := (db.resolve row.scopeTenant row.scopeRepo).map RepoRow.identity }] }

/-- `Store.AddSSHKey` of a deploy key; a taken id or fingerprint and a repository that is not
registered are refused. -/
def addDeployKey (db : Database) (id : KeyID) (fingerprint : Fingerprint) (label : String)
    (scope : Scope) : Option Database :=
  if db.sshKeys.any fun other => other.id = id || other.fingerprint = fingerprint then none
  else
    match db.repo scope.tenant scope.repo with
    | none => none
    | some row =>
      some { db with
        sshKeys := db.sshKeys ++ [⟨id, fingerprint, label, .deploy scope, none, some row.identity⟩] }

end Credentials

section Repositories

inductive RepoError where
  | invalidName
  | sameName
  | noSuchRepo
  | repoExists
  deriving DecidableEq, Repr

def registerRepo (db : Database) (tenant : Tenant) (name : RepoName) (identity : Identity) :
    Except RepoError (Bool × Database) :=
  if !validID tenant || !validID name then .error .invalidName
  else
    let inserted := (db.repo tenant name).isNone
    .ok (inserted,
      { db with
        repos := if inserted then db.repos ++ [⟨tenant, name, false, identity⟩] else db.repos
        repoAliases := db.repoAliases.filter fun row => !row.from tenant name })

/-- The aliases after a rename: the new name is no alias, chains are flattened, and the old
name becomes one. -/
def aliasesAfterRename (aliases : List AliasRow) (tenant : Tenant) (oldName newName : RepoName) :
    List AliasRow :=
  let kept := (aliases.filter fun row => !row.from tenant newName).map
    (AliasRow.flattened tenant oldName newName)
  ⟨tenant, oldName, newName⟩ :: kept.filter fun row => !row.from tenant oldName

/-- `Store.RenameRepo`. The tokens are not among the tables that follow. -/
def renameRepo (db : Database) (tenant : Tenant) (oldName newName : RepoName) :
    Except RepoError Database :=
  if !validID tenant || !validID newName then .error .invalidName
  else if newName = oldName then .error .sameName
  else if (db.repo tenant oldName).isNone then .error .noSuchRepo
  else if (db.repo tenant newName).isSome then .error .repoExists
  else
    let move := ChildRow.moved tenant oldName newName
    .ok { db with
      repoPermissions := db.repoPermissions.map (PermissionRow.moved tenant oldName newName)
      sshKeys := db.sshKeys.map (SshKeyRow.moved tenant oldName newName)
      lfsLocks := db.lfsLocks.map move
      protectedRefs := db.protectedRefs.map move
      webhookEndpoints := db.webhookEndpoints.map move
      protectedPaths := db.protectedPaths.map move
      hooks := db.hooks.map move
      oidcTrustRules := db.oidcTrustRules.map move
      buildTriggers := db.buildTriggers.map move
      repos := db.repos.map (RepoRow.moved tenant oldName newName)
      repoAliases := aliasesAfterRename db.repoAliases tenant oldName newName }

def removeAlias (db : Database) (tenant : Tenant) (oldName : RepoName) : Database :=
  { db with repoAliases := db.repoAliases.filter fun row => !row.from tenant oldName }

end Repositories

end Database

/-! Deleting a repository: the statements of the cascade, on a backend that enforces foreign
keys meanwhile and on one that does not. -/

inductive Backend where
  | sqlite
  | libsql
  | postgres
  deriving DecidableEq, Repr

/-- SQLite and libSQL run the cascade with `PRAGMA foreign_keys=OFF`. -/
def Backend.cascades : Backend → Bool
  | .sqlite | .libsql => false
  | .postgres => true

@[simp] theorem Backend.postgres_cascades : Backend.postgres.cascades = true := rfl

namespace Database

section Statements

variable (tenant : Tenant) (repo : RepoName)

def ruleIDs (db : Database) : List String :=
  (db.oidcTrustRules.filter (ChildRow.of tenant repo)).map ChildRow.id

def deleteRuleClaims (db : Database) : Database :=
  { db with
    oidcRuleClaims := db.oidcRuleClaims.filter fun row => !(db.ruleIDs tenant repo).contains row.ruleID }

/-- A rule takes its claims along if foreign keys are enforced. -/
def deleteRules (backend : Backend) (db : Database) : Database :=
  let swept := if backend.cascades then db.deleteRuleClaims tenant repo else db
  { swept with oidcTrustRules := db.oidcTrustRules.filter fun row => !row.of tenant repo }

/-- The rows that the migrations make depend on a row of `repos`. -/
def cascadeFromRepos (db : Database) : Database :=
  let db := deleteRules tenant repo .postgres db
  { db with
    repoPermissions := db.repoPermissions.filter fun row => !row.of tenant repo
    sshKeys := db.sshKeys.filter fun row => !row.of tenant repo
    protectedRefs := db.protectedRefs.filter fun row => !row.of tenant repo
    protectedPaths := db.protectedPaths.filter fun row => !row.of tenant repo
    hooks := db.hooks.filter fun row => !row.of tenant repo
    buildTriggers := db.buildTriggers.filter fun row => !row.of tenant repo }

def deleteRepos (backend : Backend) (db : Database) : Database :=
  let swept :=
    if backend.cascades && (db.repo tenant repo).isSome then cascadeFromRepos tenant repo db else db
  { swept with repos := db.repos.filter fun row => !row.of tenant repo }

/-- `cascadeStmts`. The endpoints of webhooks and their deliveries stay by design. -/
def cascadeStmts (backend : Backend) : List (Database → Database) :=
  [fun db => { db with protectedRefs := db.protectedRefs.filter fun row => !row.of tenant repo },
    fun db => { db with protectedPaths := db.protectedPaths.filter fun row => !row.of tenant repo },
    fun db => { db with hooks := db.hooks.filter fun row => !row.of tenant repo },
    deleteRuleClaims tenant repo,
    deleteRules tenant repo backend,
    fun db => { db with repoPermissions := db.repoPermissions.filter fun row => !row.of tenant repo },
    fun db => { db with sshKeys := db.sshKeys.filter fun row => !row.of tenant repo },
    fun db => { db with lfsLocks := db.lfsLocks.filter fun row => !row.of tenant repo },
    fun db => { db with repoAliases := db.repoAliases.filter fun row => !row.from tenant repo },
    fun db => { db with repoAliases := db.repoAliases.filter fun row => !row.to tenant repo },
    deleteRepos tenant repo backend]

end Statements

def deleteRepoCascade (backend : Backend) (db : Database) (tenant : Tenant) (repo : RepoName) :
    Database :=
  (cascadeStmts tenant repo backend).foldl (fun db statement => statement db) db

def triggersAfter (backend : Backend) (db : Database) (tenant : Tenant) (repo : RepoName) :
    List ChildRow :=
  if backend.cascades && (db.repo tenant repo).isSome then
    db.buildTriggers.filter fun row => !row.of tenant repo
  else db.buildTriggers

theorem deleteRepoCascade_eq (backend : Backend) (db : Database) (tenant : Tenant)
    (repo : RepoName) :
    deleteRepoCascade backend db tenant repo =
      { db with
        protectedRefs := db.protectedRefs.filter fun row => !row.of tenant repo
        protectedPaths := db.protectedPaths.filter fun row => !row.of tenant repo
        hooks := db.hooks.filter fun row => !row.of tenant repo
        oidcRuleClaims := db.oidcRuleClaims.filter fun row =>
          !(db.ruleIDs tenant repo).contains row.ruleID
        oidcTrustRules := db.oidcTrustRules.filter fun row => !row.of tenant repo
        repoPermissions := db.repoPermissions.filter fun row => !row.of tenant repo
        sshKeys := db.sshKeys.filter fun row => !row.of tenant repo
        lfsLocks := db.lfsLocks.filter fun row => !row.of tenant repo
        repoAliases := db.repoAliases.filter fun row => !row.from tenant repo && !row.to tenant repo
        buildTriggers := triggersAfter backend db tenant repo
        repos := db.repos.filter fun row => !row.of tenant repo } := by
  -- with foreign keys the same rows are filtered a second time, and the rules are gone by then
  cases cascades : backend.cascades <;>
    cases registered : (db.repos.find? (RepoRow.of tenant repo)).isSome <;>
    simp only [deleteRepoCascade, cascadeStmts, foldl, deleteRepos, deleteRules,
      deleteRuleClaims, cascadeFromRepos, triggersAfter, ruleIDs, Database.repo, cascades, registered,
      Backend.postgres_cascades, Bool.and_true, Bool.true_and, Bool.false_eq_true, if_true,
      if_false, filter_filter, Bool.and_self, Bool.and_not_self, filter_false,
      map_nil, contains_nil, Bool.not_false, Bool.and_comm]

theorem deleteRepoCascade_tokens (backend : Backend) (db : Database) (tenant : Tenant)
    (repo : RepoName) : (deleteRepoCascade backend db tenant repo).tokens = db.tokens := by
  rw [deleteRepoCascade_eq]

def boundTo (tenant : Tenant) (repo : RepoName) (row : TokenRow) : Bool :=
  (boundScope row).any fun scope => scope.tenant = tenant && scope.repo = repo

/-- A row of some table refers to the repository; the tables of the webhooks are left out. -/
def Refers (db : Database) (tenant : Tenant) (repo : RepoName) : Prop :=
  (∃ row ∈ db.repos, row.of tenant repo) ∨
  (∃ row ∈ db.repoPermissions, row.of tenant repo) ∨
  (∃ row ∈ db.sshKeys, row.of tenant repo) ∨
  (∃ row ∈ db.tokens, boundTo tenant repo row) ∨
  (∃ row ∈ db.lfsLocks ++ db.protectedRefs ++ db.protectedPaths ++ db.hooks ++
    db.oidcTrustRules ++ db.buildTriggers, row.of tenant repo) ∨
  (∃ row ∈ db.repoAliases, row.from tenant repo ∨ row.to tenant repo)

/-- Nothing is left of a repository: no row refers to it, and no claim belongs to a rule that
it had before. -/
structure Gone (before after : Database) (tenant : Tenant) (repo : RepoName) : Prop where
  unreferenced : ¬after.Refers tenant repo
  claims : ∀ claim ∈ after.oidcRuleClaims, claim.ruleID ∉ before.ruleIDs tenant repo

/-- The rows of the other repositories, of the users and of the webhooks are as before. -/
structure OthersKept (before after : Database) (tenant : Tenant) (repo : RepoName) : Prop where
  repos : after.repos.filter (fun row => !row.of tenant repo) =
    before.repos.filter fun row => !row.of tenant repo
  repoPermissions : after.repoPermissions.filter (fun row => !row.of tenant repo) =
    before.repoPermissions.filter fun row => !row.of tenant repo
  sshKeys : after.sshKeys.filter (fun row => !row.of tenant repo) =
    before.sshKeys.filter fun row => !row.of tenant repo
  tokens : after.tokens.filter (fun row => !boundTo tenant repo row) =
    before.tokens.filter fun row => !boundTo tenant repo row
  lfsLocks : after.lfsLocks.filter (fun row => !row.of tenant repo) =
    before.lfsLocks.filter fun row => !row.of tenant repo
  protectedRefs : after.protectedRefs.filter (fun row => !row.of tenant repo) =
    before.protectedRefs.filter fun row => !row.of tenant repo
  protectedPaths : after.protectedPaths.filter (fun row => !row.of tenant repo) =
    before.protectedPaths.filter fun row => !row.of tenant repo
  hooks : after.hooks.filter (fun row => !row.of tenant repo) =
    before.hooks.filter fun row => !row.of tenant repo
  oidcTrustRules : after.oidcTrustRules.filter (fun row => !row.of tenant repo) =
    before.oidcTrustRules.filter fun row => !row.of tenant repo
  oidcRuleClaims :
    after.oidcRuleClaims.filter (fun row => !(before.ruleIDs tenant repo).contains row.ruleID) =
      before.oidcRuleClaims.filter fun row => !(before.ruleIDs tenant repo).contains row.ruleID
  buildTriggers : after.buildTriggers.filter (fun row => !row.of tenant repo) =
    before.buildTriggers.filter fun row => !row.of tenant repo
  repoAliases :
    after.repoAliases.filter (fun row => !row.from tenant repo && !row.to tenant repo) =
      before.repoAliases.filter fun row => !row.from tenant repo && !row.to tenant repo
  users : after.users = before.users
  sessions : after.sessions = before.sessions
  webhookEndpoints : after.webhookEndpoints = before.webhookEndpoints
  webhookDeliveries : after.webhookDeliveries = before.webhookDeliveries
  buildTriggerDeliveries : after.buildTriggerDeliveries = before.buildTriggerDeliveries

theorem triggersAfter_kept (backend : Backend) (db : Database) (tenant : Tenant) (repo : RepoName) :
    (triggersAfter backend db tenant repo).filter (fun row => !row.of tenant repo) =
      db.buildTriggers.filter fun row => !row.of tenant repo := by
  unfold triggersAfter
  split
  · rw [filter_filter]
    simp
  · rfl

theorem deleteRepoCascade_othersKept (backend : Backend) (db : Database) (tenant : Tenant)
    (repo : RepoName) : OthersKept db (deleteRepoCascade backend db tenant repo) tenant repo := by
  rw [deleteRepoCascade_eq]
  constructor <;> first
    | rfl
    | exact triggersAfter_kept backend db tenant repo
    | simp only [filter_filter, Bool.and_self]

theorem gone_iff (backend : Backend) (db : Database) (tenant : Tenant) (repo : RepoName) :
    Gone db (deleteRepoCascade backend db tenant repo) tenant repo ↔
      (∀ row ∈ db.tokens, boundTo tenant repo row = false) ∧
        ∀ row ∈ triggersAfter backend db tenant repo, row.of tenant repo = false := by
  rw [deleteRepoCascade_eq]
  constructor
  · rintro ⟨unreferenced, _⟩
    constructor
    · intro row member
      by_contra bound
      exact unreferenced (.inr (.inr (.inr (.inl ⟨row, member, by simpa using bound⟩))))
    · intro row member
      by_contra found
      exact unreferenced (.inr (.inr (.inr (.inr (.inl
        ⟨row, by simp [member], by simpa using found⟩)))))
  · rintro ⟨tokens, triggers⟩
    constructor
    · intro found
      simp only [Refers, mem_append] at found
      rcases found with ⟨row, member, at_⟩ | ⟨row, member, at_⟩ | ⟨row, member, at_⟩ |
        ⟨row, member, at_⟩ | ⟨row, member, at_⟩ | ⟨row, member, at_⟩
      · simp [at_] at member
      · simp [at_] at member
      · simp [at_] at member
      · simp [tokens row member] at at_
      · rcases member with ((((member | member) | member) | member) | member) | member
        · simp [at_] at member
        · simp [at_] at member
        · simp [at_] at member
        · simp [at_] at member
        · simp [at_] at member
        · simp [triggers row member] at at_
      · rcases at_ with old | target <;> simp_all
    · intro claim member
      simpa using (mem_filter.mp member).2

/-- A deletion is complete and the same on every backend exactly if no token is bound to the
repository and it has no build trigger. -/
theorem delete_complete_iff (db : Database) (tenant : Tenant) (repo : RepoName) :
    ((∀ backend, Gone db (deleteRepoCascade backend db tenant repo) tenant repo ∧
        OthersKept db (deleteRepoCascade backend db tenant repo) tenant repo) ∧
      ∀ backend backend',
        deleteRepoCascade backend db tenant repo = deleteRepoCascade backend' db tenant repo) ↔
      (∀ row ∈ db.tokens, boundTo tenant repo row = false) ∧
        ∀ row ∈ db.buildTriggers, row.of tenant repo = false := by
  constructor
  · rintro ⟨complete, _⟩
    -- SQLite does not cascade, so its triggers are those of before
    exact (gone_iff .sqlite db tenant repo).mp (complete .sqlite).1
  · rintro ⟨tokens, triggers⟩
    have unchanged (backend : Backend) : triggersAfter backend db tenant repo = db.buildTriggers := by
      unfold triggersAfter
      split
      · rw [filter_eq_self]
        intro row member
        simp [triggers row member]
      · rfl
    refine ⟨fun backend => ⟨?_, deleteRepoCascade_othersKept backend db tenant repo⟩, ?_⟩
    · rw [gone_iff, unchanged backend]
      exact ⟨tokens, triggers⟩
    · intro backend backend'
      rw [deleteRepoCascade_eq, deleteRepoCascade_eq, unchanged backend, unchanged backend']

def builtRepo : Database :=
  { Database.empty with
    repos := [⟨"acme", "app", false, 0⟩]
    tokens := [⟨"T", "_build", "", "build:acme/app:ci", some 900, none, "acme", "app", "read", some 0⟩]
    buildTriggers := [⟨"trigger", "acme", "app"⟩] }

/-- The token outlives the repository everywhere, the trigger on SQLite only. -/
theorem token_and_trigger_survive :
    (deleteRepoCascade .sqlite builtRepo "acme" "app").tokens = builtRepo.tokens ∧
      (deleteRepoCascade .postgres builtRepo "acme" "app").tokens = builtRepo.tokens ∧
      (deleteRepoCascade .sqlite builtRepo "acme" "app").buildTriggers =
        [⟨"trigger", "acme", "app"⟩] ∧
      (deleteRepoCascade .postgres builtRepo "acme" "app").buildTriggers = [] ∧
      (deleteRepoCascade .sqlite builtRepo "acme" "app").repos = [] := by
  decide

end Database

end BucketVcs.Auth
