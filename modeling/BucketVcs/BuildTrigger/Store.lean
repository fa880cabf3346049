import Mathlib.Data.Int.Notation
import BucketVcs.Lib.Keyed
import BucketVcs.Lib.Results
import BucketVcs.Lib.Utf8
import BucketVcs.Policy.Match

/-! The table of build triggers: the checks of `Create`, and the statements that read, insert and
delete rows. Every statement may fail, before or after it took effect. -/

namespace BucketVcs.BuildTrigger

open BucketVcs.Policy (Text PathMatch MatchError)

inductive Kind where
  | generic
  | cloudBuild
  | codeBuild
  | azureWebhook
  | azurePipelines
  | unknown (text : Text)
  deriving DecidableEq, Repr

inductive TokenMode where
  | unset
  | none
  | inject
  | unknown (text : Text)
  deriving DecidableEq, Repr

structure Config where
  url : Text
  secret : Text
  awsRegion : Text
  awsProject : Text
  awsConnector : Text
  allowHTTP : Bool
  azureWebhookURL : Text
  azureSigHeader : Text
  azureConnector : Text
  azureProject : Text
  azurePipelineID : ℤ
  deriving DecidableEq, Repr

structure RepoKey where
  tenant : Text
  repo : Text
  deriving DecidableEq, Repr

structure TriggerKey extends RepoKey where
  name : Text
  deriving DecidableEq, Repr

/-- Durations are in nanoseconds, and scopes are bit masks. -/
structure TriggerInput where
  key : TriggerKey
  kind : Kind
  config : Config
  refInclude : List Text
  refExclude : List Text
  tokenMode : TokenMode
  tokenScopes : ℕ
  tokenTTL : ℤ
  deriving DecidableEq, Repr

structure Definition where
  kind : Kind
  config : Config
  refInclude : List Text
  refExclude : List Text
  tokenMode : TokenMode
  tokenScopes : ℕ
  tokenTTLSeconds : ℤ
  active : Bool
  deriving DecidableEq, Repr

/-- A row of `build_triggers`. -/
structure Trigger where
  id : Text
  key : TriggerKey
  definition : Definition
  createdAt : ℤ
  deriving DecidableEq, Repr

section Storing

open Utf8 (coerce)

/-- What `json.Marshal` writes: every text in UTF-8. -/
def Config.coerced (config : Config) : Config :=
  { config with
    url := coerce config.url
    secret := coerce config.secret
    awsRegion := coerce config.awsRegion
    awsProject := coerce config.awsProject
    awsConnector := coerce config.awsConnector
    azureWebhookURL := coerce config.azureWebhookURL
    azureSigHeader := coerce config.azureSigHeader
    azureConnector := coerce config.azureConnector
    azureProject := coerce config.azureProject }

def Definition.stored (definition : Definition) : Definition :=
  { definition with
    config := definition.config.coerced
    refInclude := definition.refInclude.map coerce
    refExclude := definition.refExclude.map coerce }

def Trigger.stored (row : Trigger) : Trigger := { row with definition := row.definition.stored }

end Storing

/-- What an error about an address names. -/
inductive URLField where
  | configURL
  | azureWebhookURL
  deriving DecidableEq, Repr

inductive InvalidInput where
  | emptyTenant
  | emptyRepo
  | emptyName
  | invalidName (name : Text)
  | unknownKind (text : Text)
  | tokenTTL (ttl : ℤ)
  | unknownTokenMode (text : Text)
  | refInclude (pattern : Text) (error : MatchError)
  | refExclude (pattern : Text) (error : MatchError)
  | missingURL (kind : Kind)
  | plaintextURL (what : URLField)
  | urlScheme (what : URLField)
  | missingAWS
  | missingWebhookURL
  | missingAzure
  deriving DecidableEq, Repr

/-- What becomes of a statement: it is not run, it runs and its result arrives, or it runs and an
error is reported. -/
inductive Outcome where
  | failed
  | done
  | lost
  deriving DecidableEq, Repr

/-- What `Create` and `Apply` get from outside, by the number of statements before it. -/
structure Env where
  pathMatch : PathMatch
  parseDuration : Text → Option ℤ
  parseScopes : List Text → Option ℕ
  generateSecret : ℕ → Option Text
  generateID : ℕ → Option Text
  now : ℕ → ℤ
  outcome : ℕ → Outcome
  /-- The order in which a map is ranged over. -/
  range : List RepoKey → List RepoKey
  range_perm : ∀ keys, (range keys).Perm keys

section Checks

def nanosecondsPerSecond : ℤ := 1000000000

def tokenCeiling : ℤ := 3600 * nanosecondsPerSecond

def defaultTokenTTL : ℤ := 900 * nanosecondsPerSecond

/-- `repo:read` and `lfs:read`. -/
def defaultTokenScopes : ℕ := 9

/-- `https://` -/
def httpsScheme : Text := [0x68, 0x74, 0x74, 0x70, 0x73, 0x3A, 0x2F, 0x2F]

/-- `http://` -/
def httpScheme : Text := [0x68, 0x74, 0x74, 0x70, 0x3A, 0x2F, 0x2F]

def nameByte (b : UInt8) : Bool :=
  (0x41 ≤ b && b ≤ 0x5A) || (0x61 ≤ b && b ≤ 0x7A) || (0x30 ≤ b && b ≤ 0x39) ||
    b = 0x2E || b = 0x5F || b = 0x2D

def validTriggerName (name : Text) : Bool := name ≠ [] && name.all nameByte

def checkKind : Kind → Except InvalidInput Unit
  | .unknown text => .error (.unknownKind text)
  | _ => .ok ()

def checkTTL (ttl : ℤ) : Except InvalidInput ℤ :=
  if ttl < 0 ∨ tokenCeiling < ttl then .error (.tokenTTL ttl)
  else .ok (if ttl = 0 then defaultTokenTTL else ttl)

def checkMode (kind : Kind) : TokenMode → Except InvalidInput TokenMode
  | .unset => .ok (if kind = .codeBuild ∨ kind = .azurePipelines then .inject else .none)
  | .none => .ok .none
  | .inject => .ok .inject
  | .unknown text => .error (.unknownTokenMode text)

def checkGlobs (pathMatch : PathMatch) (invalid : Text → MatchError → InvalidInput) :
    List Text → Except InvalidInput Unit
  | [] => .ok ()
  | pattern :: rest =>
    match Policy.validatePathPattern pathMatch pattern with
    | .error error => .error (invalid pattern error)
    | .ok () => checkGlobs pathMatch invalid rest

def requireHTTPS (what : URLField) (allowHTTP : Bool) (url : Text) : Except InvalidInput Unit :=
  if httpsScheme.isPrefixOf url || url = [] then .ok ()
  else if httpScheme.isPrefixOf url && allowHTTP then .ok ()
  else if httpScheme.isPrefixOf url then .error (.plaintextURL what)
  else .error (.urlScheme what)

def checkConfig (config : Config) : Kind → Except InvalidInput Unit
  | .generic => checkURL .generic
  | .cloudBuild => checkURL .cloudBuild
  | .codeBuild =>
    if config.awsRegion = [] ∨ config.awsProject = [] then .error .missingAWS else .ok ()
  | .azureWebhook =>
    if config.azureWebhookURL = [] then .error .missingWebhookURL
    else requireHTTPS .azureWebhookURL config.allowHTTP config.azureWebhookURL
  | .azurePipelines =>
    if config.azureConnector = [] ∨ config.azureProject = [] ∨ config.azurePipelineID ≤ 0 then
      .error .missingAzure
    else .ok ()
  | .unknown _ => .ok ()
where
  checkURL (kind : Kind) : Except InvalidInput Unit :=
    if config.url = [] then .error (.missingURL kind)
    else requireHTTPS .configURL config.allowHTTP config.url

def checkInput (pathMatch : PathMatch) (input : TriggerInput) : Except InvalidInput Definition := do
  Results.require (input.key.tenant ≠ []) .emptyTenant
  Results.require (input.key.repo ≠ []) .emptyRepo
  Results.require (input.key.name ≠ []) .emptyName
  Results.require (validTriggerName input.key.name) (.invalidName input.key.name)
  checkKind input.kind
  let ttl ← checkTTL input.tokenTTL
  let mode ← checkMode input.kind input.tokenMode
  let scopes := if input.tokenScopes = 0 then defaultTokenScopes else input.tokenScopes
  checkGlobs pathMatch .refInclude input.refInclude
  checkGlobs pathMatch .refExclude input.refExclude
  checkConfig input.config input.kind
  .ok ⟨input.kind, input.config, input.refInclude, input.refExclude, mode, scopes,
    ttl / nanosecondsPerSecond, true⟩

def needsSecret (definition : Definition) : Prop :=
  (definition.kind = .generic ∨ definition.kind = .cloudBuild) ∧ definition.config.secret = []

instance (definition : Definition) : Decidable (needsSecret definition) :=
  inferInstanceAs (Decidable (_ ∧ _))

def withSecret (definition : Definition) (secret : Text) : Definition :=
  { definition with config := { definition.config with secret := secret } }

end Checks

section Statements

/-- The triggers and the repositories they may belong to, with the number of statements so far. -/
structure Db where
  triggers : Keyed.Rows Trigger.id Trigger.key
  repos : List RepoKey
  statements : ℕ

namespace Db

def find (db : Db) (key : TriggerKey) : Option Trigger := db.triggers.find key

def ran (db : Db) : Db := { db with statements := db.statements + 1 }

def deleted (db : Db) (id : Text) : Db := { db.ran with triggers := db.triggers.remove id }

/-- Nothing if the repository is unknown, or the id or the key is taken. -/
def inserted (db : Db) (row : Trigger) : Option Db :=
  if row.key.toRepoKey ∈ db.repos then
    (db.triggers.insert row.stored).map fun triggers => { db.ran with triggers := triggers }
  else none

end Db

inductive FindError where
  | notFound
  | read
  deriving DecidableEq, Repr

inductive RemoveError where
  | notFound
  | exec
  deriving DecidableEq, Repr

inductive CreateError where
  | invalidInput (reason : InvalidInput)
  | secret
  | id
  | conflict
  | insert
  deriving DecidableEq, Repr

variable (env : Env)

def findByName (key : TriggerKey) (db : Db) : Except FindError Trigger × Db :=
  match env.outcome db.statements with
  | .done =>
    match db.find key with
    | some row => (.ok row, db.ran)
    | none => (.error .notFound, db.ran)
  | _ => (.error .read, db.ran)

def list (key : RepoKey) (db : Db) : Except FindError (List Trigger) × Db :=
  match env.outcome db.statements with
  | .done =>
    (.ok ((db.triggers.rows.filter fun row => row.key.toRepoKey = key).mergeSort
      fun one two => one.key.name ≤ two.key.name), db.ran)
  | _ => (.error .read, db.ran)

def remove (id : Text) (db : Db) : Except RemoveError Unit × Db :=
  match env.outcome db.statements with
  | .failed => (.error .exec, db.ran)
  | .lost => (.error .exec, db.deleted id)
  | .done =>
    if ∃ row ∈ db.triggers.rows, row.id = id then (.ok (), db.deleted id)
    else (.error .notFound, db.ran)

def fillSecret (definition : Definition) (db : Db) : Option Definition :=
  if needsSecret definition then (env.generateSecret db.statements).map (withSecret definition)
  else some definition

def insertTrigger (row : Trigger) (db : Db) : Except CreateError Trigger × Db :=
  match env.outcome db.statements with
  | .failed => (.error .insert, db.ran)
  | .lost => (.error .insert, (db.inserted row).getD db.ran)
  | .done =>
    match db.inserted row with
    | some after => (.ok row, after)
    | none => (.error (if (db.triggers.insert row.stored).isNone then .conflict else .insert), db.ran)

def create (input : TriggerInput) (db : Db) : Except CreateError Trigger × Db :=
  match checkInput env.pathMatch input with
  | .error reason => (.error (.invalidInput reason), db)
  | .ok checked =>
    match fillSecret env checked db with
    | none => (.error .secret, db)
    | some definition =>
      match env.generateID db.statements with
      | none => (.error .id, db)
      | some id => insertTrigger env ⟨id, input.key, definition, env.now db.statements⟩ db

end Statements

section Effects

variable (env : Env)

/-- Only the row under the key differs. -/
structure Db.Sets (db after : Db) (key : TriggerKey) (value : Option Trigger) : Prop where
  here : after.find key = value
  others : ∀ other, other ≠ key → after.find other = db.find other

def Describes (input : TriggerInput) (row : Trigger) : Prop :=
  ∃ checked, checkInput env.pathMatch input = .ok checked ∧ row.key = input.key ∧
    (¬needsSecret checked ∧ row.definition = checked.stored ∨
      needsSecret checked ∧ ∃ secret, row.definition = (withSecret checked secret).stored)

def Stores (input : TriggerInput) (db : Db) : Prop :=
  ∃ checked definition id after, checkInput env.pathMatch input = .ok checked ∧
    fillSecret env checked db = some definition ∧ env.generateID db.statements = some id ∧
    env.outcome db.statements ≠ .failed ∧
    db.inserted ⟨id, input.key, definition, env.now db.statements⟩ = some after

variable {env}

theorem Db.inserted_sets {db after : Db} {row : Trigger} (inserted : db.inserted row = some after) :
    db.Sets after row.key (some row.stored) := by
  unfold Db.inserted at inserted
  split at inserted
  · obtain ⟨triggers, added, same⟩ := Option.map_eq_some_iff.mp inserted
    subst same
    constructor
    · exact Keyed.Rows.find_insert_self added
    · intro other different
      exact Keyed.Rows.find_insert_other added different
  · cases inserted

theorem Db.deleted_sets {db : Db} {key : TriggerKey} {row : Trigger} (found : db.find key = some row) :
    db.Sets (db.deleted row.id) key none := by
  constructor
  · exact Keyed.Rows.find_remove_self found
  · intro other different
    exact Keyed.Rows.find_remove_other found different

theorem fillSecret_eq_some {checked definition : Definition} {db : Db}
    (filled : fillSecret env checked db = some definition) :
    ¬needsSecret checked ∧ definition.stored = checked.stored ∨
      needsSecret checked ∧ ∃ secret, definition.stored = (withSecret checked secret).stored := by
  unfold fillSecret at filled
  split at filled
  · rename_i needed
    obtain ⟨secret, _, same⟩ := Option.map_eq_some_iff.mp filled
    exact .inr ⟨needed, secret, by rw [same]⟩
  · rename_i given
    cases filled
    exact .inl ⟨given, rfl⟩

theorem insertTrigger_cases (row : Trigger) (db : Db) :
    (∃ after, env.outcome db.statements ≠ .failed ∧ db.inserted row = some after ∧
      (insertTrigger env row db).2 = after) ∨
    (∃ error, (insertTrigger env row db).1 = .error error ∧
      (env.outcome db.statements ≠ .failed → ∀ after, db.inserted row ≠ some after) ∧
      ∀ key, (insertTrigger env row db).2.find key = db.find key) := by
  unfold insertTrigger
  cases ran : env.outcome db.statements with
  | failed =>
    right
    exact ⟨_, rfl, fun not => absurd rfl not, fun key => rfl⟩
  | done | lost =>
    cases stored : db.inserted row with
    | none =>
      right
      exact ⟨_, rfl, fun _ after => (Option.some_ne_none after).symm, fun key => rfl⟩
    | some after =>
      left
      exact ⟨after, by decide, rfl, rfl⟩

/-- What `Create` can do: it stores a row as the input describes it, or it fails and leaves every
row as it was. -/
inductive Creates (env : Env) (input : TriggerInput) (db : Db) :
    Except CreateError Trigger → Db → Prop where
  | stored {result : Except CreateError Trigger} {after : Db} {row : Trigger}
      (stores : Stores env input db) (describes : Describes env input row)
      (sets : db.Sets after input.key (some row)) : Creates env input db result after
  | refused {error : CreateError} {after : Db} (not : ¬Stores env input db)
      (same : ∀ key, after.find key = db.find key) : Creates env input db (.error error) after

theorem create_creates (input : TriggerInput) (db : Db) :
    Creates env input db (create env input db).1 (create env input db).2 := by
  unfold create
  cases checks : checkInput env.pathMatch input with
  | error reason =>
    refine .refused ?_ fun key => rfl
    rintro ⟨checked, _, _, _, passed, _⟩
    cases checks.symm.trans passed
  | ok checked =>
    cases fills : fillSecret env checked db with
    | none =>
      simp only [fills]
      refine .refused ?_ fun key => rfl
      rintro ⟨checked', _, _, _, passed, filled, _⟩
      cases checks.symm.trans passed
      cases fills.symm.trans filled
    | some definition =>
      cases minted : env.generateID db.statements with
      | none =>
        simp only [fills]
        refine .refused ?_ fun key => rfl
        rintro ⟨_, _, id, _, _, _, named, _⟩
        cases minted.symm.trans named
      | some id =>
        simp only [fills]
        rcases @insertTrigger_cases env ⟨id, input.key, definition, env.now db.statements⟩ db
          with ⟨after, ran, inserted, same⟩ | ⟨error, failed, not, same⟩
        · rw [same]
          refine .stored ⟨checked, definition, id, after, checks, fills, minted, ran, inserted⟩
            ⟨checked, checks, rfl, fillSecret_eq_some fills⟩ (Db.inserted_sets inserted)
        · rw [failed]
          refine .refused ?_ same
          rintro ⟨checked', definition', id', after, passed, filled, named, ran, inserted⟩
          cases checks.symm.trans passed
          cases fills.symm.trans filled
          cases minted.symm.trans named
          exact not ran after inserted

end Effects

/-! `Apply`: a document of triggers is brought into the table entry by entry, an existing trigger
being deleted and created again, and what is not declared may be pruned. -/

open BucketVcs.Policy (Text)

structure ApplyTrigger where
  key : TriggerKey
  kind : Kind
  config : Config
  refInclude : List Text
  refExclude : List Text
  tokenMode : TokenMode
  tokenScopes : List Text
  tokenTTL : Text
  deriving DecidableEq, Repr

structure ApplyResult where
  created : ℕ
  updated : ℕ
  pruned : ℕ
  deriving DecidableEq, Repr

inductive InputError where
  | tokenTTL (text : Text)
  | tokenScopes
  deriving DecidableEq, Repr

inductive EntryError where
  | input (error : InputError)
  | find
  | create (error : CreateError)
  | removeOld (id : Text) (error : RemoveError)
  | createReplacement (error : CreateError)
  deriving DecidableEq, Repr

inductive ApplyError where
  | unmarshal
  | entry (key : TriggerKey) (error : EntryError)
  | pruneList (key : RepoKey)
  | pruneRemove (id : Text) (error : RemoveError)
  deriving DecidableEq, Repr

inductive Change where
  | created
  | updated
  deriving DecidableEq, Repr

section Functions

variable (env : Env)

def inputTTL (text : Text) : Except InputError ℤ :=
  if text = [] then .ok 0
  else
    match env.parseDuration text with
    | some duration => .ok duration
    | none => .error (.tokenTTL text)

def inputScopes (names : List Text) : Except InputError ℕ :=
  if names = [] then .ok 0
  else
    match env.parseScopes names with
    | some scopes => .ok scopes
    | none => .error .tokenScopes

def toInput (entry : ApplyTrigger) : Except InputError TriggerInput := do
  let ttl ← inputTTL env entry.tokenTTL
  let scopes ← inputScopes env entry.tokenScopes
  .ok ⟨entry.key, entry.kind, entry.config, entry.refInclude, entry.refExclude, entry.tokenMode,
    scopes, ttl⟩

def replace (input : TriggerInput) (existing : Trigger) (db : Db) : Except EntryError Change × Db :=
  match remove env existing.id db with
  | (.error error, removed) => (.error (.removeOld existing.id error), removed)
  | (.ok (), removed) =>
    match create env input removed with
    | (.error error, after) => (.error (.createReplacement error), after)
    | (.ok _, after) => (.ok .updated, after)

def applyEntry (entry : ApplyTrigger) (db : Db) : Except EntryError Change × Db :=
  match toInput env entry with
  | .error error => (.error (.input error), db)
  | .ok input =>
    match findByName env entry.key db with
    | (.error .notFound, read) =>
      match create env input read with
      | (.error error, after) => (.error (.create error), after)
      | (.ok _, after) => (.ok .created, after)
    | (.error .read, read) => (.error .find, read)
    | (.ok existing, read) => replace env input existing read

def ApplyResult.count (result : ApplyResult) : Change → ApplyResult
  | .created => { result with created := result.created + 1 }
  | .updated => { result with updated := result.updated + 1 }

def applyEntries : List ApplyTrigger → ApplyResult → Db → Except ApplyError ApplyResult × Db
  | [], result, db => (.ok result, db)
  | entry :: rest, result, db =>
    match applyEntry env entry db with
    | (.error error, after) => (.error (.entry entry.key error), after)
    | (.ok change, after) => applyEntries rest (result.count change) after

def declared (entries : List ApplyTrigger) : List TriggerKey := entries.map ApplyTrigger.key

def covered (entries : List ApplyTrigger) : List RepoKey :=
  ((declared entries).map TriggerKey.toRepoKey).dedup

def pruneRows (names : List TriggerKey) :
    List Trigger → ApplyResult → Db → Except ApplyError ApplyResult × Db
  | [], result, db => (.ok result, db)
  | row :: rest, result, db =>
    if row.key ∈ names then pruneRows names rest result db
    else
      match remove env row.id db with
      | (.error error, after) => (.error (.pruneRemove row.id error), after)
      | (.ok (), after) => pruneRows names rest { result with pruned := result.pruned + 1 } after

def pruneRepos (names : List TriggerKey) :
    List RepoKey → ApplyResult → Db → Except ApplyError ApplyResult × Db
  | [], result, db => (.ok result, db)
  | key :: rest, result, db =>
    match list env key db with
    | (.error _, listed) => (.error (.pruneList key), listed)
    | (.ok all, listed) =>
      match pruneRows env names all result listed with
      | (.error error, after) => (.error error, after)
      | (.ok result, after) => pruneRepos names rest result after

def apply (document : Except Unit (List ApplyTrigger)) (prune : Bool) (db : Db) :
    Except ApplyError ApplyResult × Db :=
  match document with
  | .error () => (.error .unmarshal, db)
  | .ok entries =>
    match applyEntries env entries ⟨0, 0, 0⟩ db with
    | (.error error, after) => (.error error, after)
    | (.ok result, after) =>
      if prune then pruneRepos env (declared entries) (env.range (covered entries)) result after
      else (.ok result, after)

end Functions

section Entry

variable (env : Env)

def Declares (entry : ApplyTrigger) (row : Trigger) : Prop :=
  ∃ input, toInput env entry = .ok input ∧ Describes env input row

/-- The existing trigger is deleted and not created again: the deletion takes effect but reports an
error, or the creation after it is refused. -/
def Loses (db : Db) (entry : ApplyTrigger) : Prop :=
  ∃ input row, toInput env entry = .ok input ∧ env.outcome db.statements = .done ∧
    db.find entry.key = some row ∧
    (env.outcome (db.statements + 1) = .lost ∨
      env.outcome (db.statements + 1) = .done ∧ ¬Stores env input (db.ran.deleted row.id))

inductive Effect (entry : ApplyTrigger) (db : Db) : Except EntryError Change → Db → Prop where
  | kept {error : EntryError} {after : Db} (intact : ¬Loses env db entry)
      (same : ∀ key, after.find key = db.find key) : Effect entry db (.error error) after
  | written {result : Except EntryError Change} {after : Db} {row : Trigger}
      (intact : ¬Loses env db entry) (declares : Declares env entry row)
      (sets : db.Sets after entry.key (some row)) : Effect entry db result after
  | lost {error : EntryError} {after : Db} (loses : Loses env db entry)
      (sets : db.Sets after entry.key none) : Effect entry db (.error error) after

variable {env} {entry : ApplyTrigger} {input : TriggerInput}

theorem toInput_key (parsed : toInput env entry = .ok input) : input.key = entry.key := by
  obtain ⟨ttl, _, parsed⟩ := Results.bind_ok parsed
  obtain ⟨scopes, _, parsed⟩ := Results.bind_ok parsed
  cases parsed
  rfl

theorem Db.Sets.trans {db mid after : Db} {key : TriggerKey} {one two : Option Trigger}
    (first : db.Sets mid key one) (second : mid.Sets after key two) : db.Sets after key two := by
  constructor
  · exact second.here
  · intro other different
    rw [second.others other different, first.others other different]

theorem replace_effect {db : Db} {existing : Trigger}
    (parsed : toInput env entry = .ok input) (done : env.outcome db.statements = .done)
    (found : db.find entry.key = some existing) :
    Effect env entry db (replace env input existing db.ran).1 (replace env input existing db.ran).2 := by
  have gone : db.Sets (db.ran.deleted existing.id) entry.key none := by
    have sets : db.ran.Sets (db.ran.deleted existing.id) entry.key none := Db.deleted_sets found
    exact ⟨sets.here, sets.others⟩
  have intact_of (outcome : env.outcome (db.statements + 1) ≠ .lost)
      (stores : env.outcome (db.statements + 1) = .done →
        Stores env input (db.ran.deleted existing.id)) : ¬Loses env db entry := by
    rintro ⟨input', row, parsed', _, found', lost | ⟨ran, refused⟩⟩
    · exact outcome lost
    · cases parsed.symm.trans parsed'
      cases found.symm.trans found'
      exact refused (stores ran)
  have listed : ∃ row ∈ db.ran.triggers.rows, row.id = existing.id :=
    ⟨existing, (Keyed.Rows.find_eq_some_iff.mp found).1, rfl⟩
  cases ran : env.outcome (db.statements + 1) with
  | failed =>
    simp only [replace, remove, Db.ran, ran]
    exact .kept (intact_of (by simp [ran]) (by simp [ran])) fun key => rfl
  | lost =>
    simp only [replace, remove, Db.ran, ran]
    exact .lost ⟨input, existing, parsed, done, found, .inl ran⟩ gone
  | done =>
    have removes : remove env existing.id db.ran = (.ok (), db.ran.deleted existing.id) := by
      unfold remove
      rw [show env.outcome db.ran.statements = .done from ran]
      exact if_pos listed
    simp only [replace, removes]
    have creates := @create_creates env input (db.ran.deleted existing.id)
    generalize create env input (db.ran.deleted existing.id) = outcome at creates
    obtain ⟨result, after⟩ := outcome
    cases creates with
    | @stored _ _ row stores describes sets =>
      rw [toInput_key parsed] at sets
      have written : ∀ result, Effect env entry db result after := fun result =>
        .written (intact_of (by simp [ran]) fun _ => stores) ⟨input, parsed, describes⟩
          (gone.trans sets)
      cases result with
      | error error | ok row => exact written _
    | refused not same =>
      refine .lost ⟨input, existing, parsed, done, found, .inr ⟨ran, not⟩⟩ ?_
      constructor
      · exact (same _).trans gone.here
      · intro other different
        exact (same other).trans (gone.others other different)

theorem intact_of_read {db : Db} (unread : env.outcome db.statements ≠ .done) :
    ¬Loses env db entry := by
  rintro ⟨_, _, _, read, _⟩
  exact unread read

theorem applyEntry_effect (entry : ApplyTrigger) (db : Db) :
    Effect env entry db (applyEntry env entry db).1 (applyEntry env entry db).2 := by
  unfold applyEntry
  cases parsed : toInput env entry with
  | error error =>
    refine .kept ?_ fun key => rfl
    rintro ⟨input, _, parsed', _⟩
    cases parsed.symm.trans parsed'
  | ok input =>
    unfold findByName
    cases read : env.outcome db.statements with
    | failed | lost => exact .kept (intact_of_read (by simp [read])) fun key => rfl
    | done =>
      cases found : db.find entry.key with
      | some existing => exact replace_effect parsed read found
      | none =>
        have intact : ¬Loses env db entry := by
          rintro ⟨_, row, _, _, found', _⟩
          cases found.symm.trans found'
        simp only
        have creates := @create_creates env input db.ran
        generalize create env input db.ran = outcome at creates
        obtain ⟨result, after⟩ := outcome
        cases creates with
        | @stored _ _ row stores describes sets =>
          rw [toInput_key parsed] at sets
          have written : ∀ result, Effect env entry db result after := fun result =>
            .written intact ⟨input, parsed, describes⟩ ⟨sets.here, sets.others⟩
          cases result with
          | error error | ok row => exact written _
        | refused not same => exact .kept intact same

end Entry

end BucketVcs.BuildTrigger
