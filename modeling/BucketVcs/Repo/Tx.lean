import BucketVcs.Lib.Run
import BucketVcs.Manifest.Body

/-! Transaction records: the header the commit kernel mints, flattened into one JSON
object with the caller's fields. -/

namespace BucketVcs.Tx

open Manifest Finmap

structure Header where
  schemaVersion : Int
  txID : TxID
  repoID : String
  baseManifestVersion : UInt64
  baseManifestObjectVersion : String
  startedAt : Time
  deriving DecidableEq, Repr

/-- The caller's part of a record; an absent field is one the encoder omits. -/
structure Body (V : Type) where
  type : String
  actor : String
  refUpdates : Option (Value V)
  newPacks : Option (Value V)
  validation : Option (Value V)
  extra : RawMessage V

variable {V : Type}

def headerKeys : List String :=
  ["schema_version", "tx_id", "repo_id",
    "base_manifest_version", "base_manifest_object_version", "started_at"]

def bodyKnownKeys : List String :=
  ["type", "actor", "ref_updates", "new_packs", "validation"]

def reservedKeys : List String := headerKeys ++ bodyKnownKeys

def headerFields (h : Header) : List (String × Value V) :=
  [("schema_version", .number h.schemaVersion),
    ("tx_id", .string h.txID),
    ("repo_id", .string h.repoID),
    ("base_manifest_version", .number h.baseManifestVersion.toNat),
    ("base_manifest_object_version", .string h.baseManifestObjectVersion),
    ("started_at", .time h.startedAt)]

def optionalField (key : String) : Option (Value V) → List (String × Value V)
  | some value => [(key, value)]
  | none => []

def bodyFields (b : Body V) : List (String × Value V) :=
  [("type", .string b.type), ("actor", .string b.actor)] ++
    optionalField "ref_updates" b.refUpdates ++
    optionalField "new_packs" b.newPacks ++
    optionalField "validation" b.validation

def addField (top : Fields V) (field : String × Value V) : Except RepoError (Fields V) :=
  if (top.lookup field.1).isSome then
    .error (.invalid ("tx: body key \"" ++ field.1 ++ "\" collides with header"))
  else .ok (top.insert field.1 field.2)

def addExtra (top : Fields V) : RawMessage V → Except RepoError (Fields V)
  | .empty => .ok top
  | .null => .error (.invalid "tx: Extra must be a JSON object, got null")
  | .malformed detail => .error (.invalid ("tx: Extra must be a JSON object: " ++ detail))
  | .object extra =>
    match reservedKeys.find? fun key => (extra.lookup key).isSome with
    | some key =>
      .error (.invalid
        ("tx: extra key \"" ++ key ++ "\" collides with header or known body key"))
    | none => .ok (extra ∪ top)

def marshal (h : Header) (b : Body V) : Except RepoError (Fields V) := do
  let top ← (bodyFields b).foldlM addField (Dict.insertAll (headerFields h) ∅)
  addExtra top b.extra

variable {top next : Fields V} {key : String} {value : Value V}

theorem lookup_addField {field : String × Value V} (added : addField top field = .ok next)
    (present : top.lookup key = some value) : next.lookup key = some value := by
  unfold addField at added
  split at added
  · cases added
  · next absent =>
      cases added
      have different : key ≠ field.1 := by
        rintro rfl
        simp [present] at absent
      rw [lookup_insert_of_ne _ different]
      exact present

theorem lookup_foldlM_addField {fields : List (String × Value V)}
    (added : fields.foldlM addField top = .ok next) (present : top.lookup key = some value) :
    next.lookup key = some value := by
  induction fields generalizing top with
  | nil =>
    cases added
    exact present
  | cons field fields ih =>
    rw [List.foldlM_cons] at added
    cases step : addField top field with
    | error e => simp [step] at added
    | ok middle =>
      simp only [step] at added
      exact ih added (lookup_addField step present)

theorem lookup_addExtra {extra : RawMessage V} (added : addExtra top extra = .ok next)
    (owned : key ∈ reservedKeys) (present : top.lookup key = some value) :
    next.lookup key = some value := by
  unfold addExtra at added
  split at added
  · cases added
    exact present
  · cases added
  · cases added
  · next extra =>
      split at added
      · cases added
      · next clear =>
          cases added
          have absent : extra.lookup key = none := by
            have missing := List.find?_eq_none.mp clear key owned
            simpa using missing
          rw [lookup_union_right (by simpa [lookup_eq_none] using absent)]
          exact present

theorem lookup_marshal {h : Header} {b : Body V} {record : Fields V}
    (written : marshal h b = .ok record) (member : (key, value) ∈ headerFields h) :
    record.lookup key = some value := by
  have distinct : ((headerFields (V := V) h).map Prod.fst).Nodup := by
    change headerKeys.Nodup
    decide
  have owned : key ∈ reservedKeys := by
    have inHeader : key ∈ (headerFields (V := V) h).map Prod.fst :=
      List.mem_map.mpr ⟨_, member, rfl⟩
    exact List.mem_append_left _ inHeader
  unfold marshal at written
  cases folded : (bodyFields b).foldlM addField (Dict.insertAll (headerFields h) ∅) with
  | error e => simp [folded] at written
  | ok top =>
    simp only [folded] at written
    have start := Dict.lookup_insertAll_of_mem (headerFields h) ∅ distinct member
    exact lookup_addExtra written owned (lookup_foldlM_addField folded start)

end BucketVcs.Tx

/-! `Repo.Commit` as a step machine: concurrent calls over one store, each call moving
from storage operation to storage operation. -/

namespace BucketVcs.Repo

open Manifest

abbrev CallId := Nat

structure RootObject (V : Type) where
  doc : Fields V
  version : ObjectVersion

structure RootView (V : Type) where
  header : RootHeader
  body : Fields V
  version : ObjectVersion

variable {V : Type}

def readView (semver : Semver) (root : RootObject V) : Except RepoError (RootView V) :=
  (readRoot semver root.doc).map fun parsed => ⟨parsed.1, parsed.2, root.version⟩

/-- What a callback leaves behind: its result and the view it was handed, which it may
have overwritten. -/
structure Outcome (V : Type) where
  result : Except String (RawMessage V)
  view : RootView V

structure CommitPolicy where
  maxRetries : Int
  backoffBase : Int

def defaultPolicy : CommitPolicy := ⟨8, 5000000⟩

def CommitPolicy.attempts (policy : CommitPolicy) : Nat :=
  if policy.maxRetries < 1 then 1 else policy.maxRetries.toNat

/-- The arguments of one `Commit` call. A callback is any relation, so it may be stateful
and may depend on whatever else it reads. -/
structure Request (V : Type) where
  txBody : Tx.Body V
  policy : CommitPolicy
  buildBody : RootView V → Outcome V → Prop

structure Kernel (V : Type) where
  semver : Semver
  repoID : String
  request : CallId → Request V

inductive CommitError where
  | failed (cause : RepoError)
  | gaveUp (attempts : Nat) (orphanTxIDs : List TxID) (lastErr : RepoError)

/-- One replacement of the root, with what the store held under the new root's
transaction id at that moment. -/
structure Link (V : Type) where
  call : CallId
  prev : RootObject V
  next : RootObject V
  txID : TxID
  record : Option (Fields V)
  view : RootView V
  newBody : RawMessage V

/-- The store, and the history of the run: `owner` names the call that minted a
transaction id, `links` the replacements of the root and `history` the roots that were
ever current, newest first. No step reads the last three, except that a version is
never used twice. -/
structure Store (V : Type) where
  root : RootObject V
  txs : TxID → Option (Fields V)
  markers : TxID → Bool
  owner : TxID → Option CallId
  links : List (Link V)
  history : List (RootObject V)

def Store.recordTx (σ : Store V) (call : CallId) (txID : TxID) (record : Fields V) : Store V :=
  { σ with
    txs := Function.update σ.txs txID (some record)
    owner := Function.update σ.owner txID (some call) }

def Store.replaceRoot (σ : Store V) (link : Link V) : Store V :=
  { σ with root := link.next, links := link :: σ.links, history := link.next :: σ.history }

def Store.mark (σ : Store V) (txID : TxID) (stored : Bool) : Store V :=
  { σ with markers := Function.update σ.markers txID (σ.markers txID || stored) }

/-- Where a call stands: the phase names the last thing it did. After the callback only
the snapshot `snap` taken before it is carried along. -/
inductive Phase (V : Type) where
  | idle
  | head (attempt : Nat) (orphans : List TxID)
  | called (attempt : Nat) (orphans : List TxID) (view : RootView V)
  | built (attempt : Nat) (orphans : List TxID) (snap : RootView V) (newBody : RawMessage V)
  | written (attempt : Nat) (orphans : List TxID) (snap : RootView V) (newBody : RawMessage V)
      (txID : TxID)
  | landed (txID : TxID)
  | done (result : Except CommitError TxID)

inductive Reply where
  | applied
  | mismatch
  | failed (text : String)
  deriving DecidableEq

inductive Label where
  | start
  | cancel
  | readRoot
  | readFails
  | callback
  | writeTx
  | txFails
  | wrapFails
  | cas (effective : Bool) (reply : Reply)
  | marker
  deriving DecidableEq

/-- A conditional put that took effect and was not reported as applied. -/
def Label.lost : Label → Prop
  | .cas true reply => reply ≠ .applied
  | _ => False

/-- A conditional put that took effect and was reported as a version mismatch. -/
def Label.misreported : Label → Prop
  | .cas true .mismatch => True
  | _ => False

def nextHeader (snap : RootHeader) (txID : TxID) (now : Time) : RootHeader :=
  { snap with
    manifestVersion := snap.manifestVersion + 1
    latestTx := txID
    updatedAt := now }

def Kernel.txHeader (k : Kernel V) (snap : RootView V) (txID : TxID) (now : Time) : Tx.Header :=
  ⟨1, txID, k.repoID, snap.header.manifestVersion, snap.version.token, now⟩

/-- After a mismatch: the next attempt, or `CommitGaveUpError` once the budget is spent.
A cancelled backoff returns what the next attempt's first check would return. -/
def afterMismatch (policy : CommitPolicy) (attempt : Nat) (orphans : List TxID) : Phase V :=
  if attempt < policy.attempts then .head (attempt + 1) orphans
  else .done (.error (.gaveUp policy.attempts orphans .versionMismatch))

def afterReply (policy : CommitPolicy) (attempt : Nat) (orphans : List TxID) (txID : TxID) :
    Reply → Phase V
  | .applied => .landed txID
  | .mismatch => afterMismatch policy attempt (orphans ++ [txID])
  | .failed text => .done (.error (.failed (.storage text)))

/-- One step of call `c`. The store carries out a conditional put atomically; whether its
reply reaches the caller is left to the label. -/
inductive Move (k : Kernel V) (c : CallId) :
    Store V → Phase V → Label → Store V → Phase V → Prop where
  | start {σ} : Move k c σ .idle .start σ (.head 1 [])
  | cancelAtHead {σ attempt orphans} (text : String) :
      Move k c σ (.head attempt orphans) .cancel σ (.done (.error (.failed (.context text))))
  | cancelAfterCallback {σ attempt orphans snap newBody} (text : String) :
      Move k c σ (.built attempt orphans snap newBody) .cancel σ
        (.done (.error (.failed (.context text))))
  | cancelBeforeCas {σ attempt orphans snap newBody txID} (text : String) :
      Move k c σ (.written attempt orphans snap newBody txID) .cancel σ
        (.done (.error (.failed (.context text))))
  | readRoot {σ attempt orphans view} (read : readView k.semver σ.root = .ok view) :
      Move k c σ (.head attempt orphans) .readRoot σ (.called attempt orphans view)
  | readFails {σ attempt orphans} (cause : RepoError) :
      Move k c σ (.head attempt orphans) .readFails σ (.done (.error (.failed cause)))
  | callbackOk {σ attempt orphans view outcome newBody}
      (ran : (k.request c).buildBody view outcome) (returned : outcome.result = .ok newBody) :
      Move k c σ (.called attempt orphans view) .callback σ (.built attempt orphans view newBody)
  | callbackError {σ attempt orphans view outcome cause}
      (ran : (k.request c).buildBody view outcome) (returned : outcome.result = .error cause) :
      Move k c σ (.called attempt orphans view) .callback σ
        (.done (.error (.failed (.callbackFailed cause))))
  | writeTx {σ attempt orphans snap newBody txID now record} (fresh : σ.txs txID = none)
      (marshalled : Tx.marshal (k.txHeader snap txID now) (k.request c).txBody = .ok record) :
      Move k c σ (.built attempt orphans snap newBody) .writeTx (σ.recordTx c txID record)
        (.written attempt orphans snap newBody txID)
  | txFails {σ attempt orphans snap newBody} (cause : RepoError) :
      Move k c σ (.built attempt orphans snap newBody) .txFails σ
        (.done (.error (.failed cause)))
  -- the put stored the record and its reply was lost
  | txFailsStored {σ attempt orphans snap newBody txID now record} (fresh : σ.txs txID = none)
      (marshalled : Tx.marshal (k.txHeader snap txID now) (k.request c).txBody = .ok record)
      (cause : RepoError) :
      Move k c σ (.built attempt orphans snap newBody) .txFails (σ.recordTx c txID record)
        (.done (.error (.failed cause)))
  | wrapFails {σ attempt orphans snap newBody txID now cause}
      (refused : wrapHeaderInBody (nextHeader snap.header txID now) newBody = .error cause) :
      Move k c σ (.written attempt orphans snap newBody txID) .wrapFails σ
        (.done (.error (.failed cause)))
  | casTaken {σ attempt orphans snap newBody txID now doc version} (reply : Reply)
      (wrapped : wrapHeaderInBody (nextHeader snap.header txID now) newBody = .ok doc)
      (current : σ.root.version = snap.version)
      (unused : ∀ r ∈ σ.history, r.version ≠ version) :
      Move k c σ (.written attempt orphans snap newBody txID) (.cas true reply)
        (σ.replaceRoot ⟨c, σ.root, ⟨doc, version⟩, txID, σ.txs txID, snap, newBody⟩)
        (afterReply (k.request c).policy attempt orphans txID reply)
  | casRefused {σ attempt orphans snap newBody txID now doc}
      (wrapped : wrapHeaderInBody (nextHeader snap.header txID now) newBody = .ok doc)
      (stale : σ.root.version ≠ snap.version) :
      Move k c σ (.written attempt orphans snap newBody txID) (.cas false .mismatch) σ
        (afterMismatch (k.request c).policy attempt (orphans ++ [txID]))
  | casFails {σ attempt orphans snap newBody txID now doc} (text : String)
      (wrapped : wrapHeaderInBody (nextHeader snap.header txID now) newBody = .ok doc) :
      Move k c σ (.written attempt orphans snap newBody txID) (.cas false (.failed text)) σ
        (.done (.error (.failed (.storage text))))
  | marker {σ txID} (stored : Bool) :
      Move k c σ (.landed txID) .marker (σ.mark txID stored) (.done (.ok txID))

structure CreateOptions where
  defaultBranch : String
  objectFormat : String
  actor : String

def CreateOptions.normalize (opts : CreateOptions) : CreateOptions :=
  { defaultBranch := if opts.defaultBranch = "" then "refs/heads/main" else opts.defaultBranch
    objectFormat := if opts.objectFormat = "" then "sha1" else opts.objectFormat
    actor := if opts.actor = "" then "unknown" else opts.actor }

def createHeader (repoID objectFormat : String) (txID : TxID) (now : Time) : RootHeader :=
  ⟨currentSchemaVersion, supportedReaderVersion, repoID, ⟨objectFormat, [objectFormat]⟩, 1, txID,
    now, now⟩

/-- A repository prefix of the bucket before `Create`. -/
structure Bucket (V : Type) where
  root : Option (RootObject V)
  txs : TxID → Option (Fields V)
  markers : TxID → Bool

def Bucket.withRoot (bucket : Bucket V) (txID : TxID) (record : Fields V) (root : RootObject V)
    (marked : Bool) : Store V :=
  { root := root
    txs := Function.update bucket.txs txID (some record)
    markers := Function.update bucket.markers txID (bucket.markers txID || marked)
    owner := fun _ => none
    links := []
    history := [root] }

/-- `Create`: the transaction record first, the root second. `bodyOf` is the decoded
initial body for a default branch; `marked` says whether the best-effort marker landed. -/
def create (bucket : Bucket V) (repoID : String) (options : CreateOptions) (txID : TxID)
    (now : Time) (version : ObjectVersion) (bodyOf : String → RawMessage V) (marked : Bool) :
    Except RepoError (Store V) := do
  let opts := options.normalize
  if opts.objectFormat ≠ "sha1" then
    .error (.invalid ("repo: object_format \"" ++ opts.objectFormat ++
      "\" not supported in M1 (only sha1)"))
  else
    let record ← Tx.marshal ⟨1, txID, repoID, 0, "", now⟩
      ⟨"create", opts.actor, none, none, none, .empty⟩
    if (bucket.txs txID).isSome then .error (.storage "repo: create tx record")
    else
      let doc ← wrapHeaderInBody (createHeader repoID opts.objectFormat txID now)
        (bodyOf opts.defaultBranch)
      match bucket.root with
      | some _ => .error .repoExists
      | none => .ok (bucket.withRoot txID record ⟨doc, version⟩ marked)

abbrev System (V : Type) := Interleave.System CallId (Store V) (Phase V)

abbrev Step (k : Kernel V) : System V → CallId × Label → System V → Prop :=
  Interleave.Step (Move k)

end BucketVcs.Repo
