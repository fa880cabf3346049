import BucketVcs.Lib.Dict
import BucketVcs.Lib.Utf8
import BucketVcs.Manifest.Layout

/-! The body of a root manifest: refs (inline or sharded), packs, indexes and bundles. -/

namespace BucketVcs.Manifest

open List Finmap Dict Utf8

/-- A ref name is a Go string: any bytes, not necessarily UTF-8. -/
abbrev RefName := List UInt8

-- The bytewise order of names, under one name each for every listing that is sorted by it.
instance RefName.trans : IsTrans RefName (· ≤ ·) := inferInstance

instance RefName.antisymm : Std.Antisymm (α := RefName) (· ≤ ·) := inferInstance

instance RefName.total : Std.Total (α := RefName) (· ≤ ·) := inferInstance

abbrev OID := String

abbrev PackID := String

abbrev Key := String

abbrev RefMap := Finmap fun _ : RefName => OID

def nullOID : OID := "0000000000000000000000000000000000000000"

/-! Names of samples: a branch of one letter, and two object ids. -/

def headRef (letter : UInt8) : RefName :=
  [0x72, 0x65, 0x66, 0x73, 0x2F, 0x68, 0x65, 0x61, 0x64, 0x73, 0x2F, letter]

def objectOne : OID := "1111111111111111111111111111111111111111"

def objectTwo : OID := "2222222222222222222222222222222222222222"

/-- A shard id is the byte its two hex digits spell; a hash is what the content hash
returned. The two shape checks of the source therefore hold by type. -/
structure RefShard where
  shard : UInt8
  key : Key
  hash : String
  refCount : Int
  deriving DecidableEq, Repr

structure PackEntry where
  packID : PackID
  packKey : Key
  idxKey : Key
  sizeBytes : Int
  objectCount : Int
  packChecksum : String
  bitmapKey : Key
  deriving DecidableEq, Repr

structure IndexRef where
  key : Key
  hash : String
  sizeBytes : Int
  deriving DecidableEq, Repr

structure ReachabilityRef where
  baseManifest : String
  deltas : List IndexRef
  deriving DecidableEq, Repr

structure Indexes where
  objectMap : Option IndexRef
  commitGraph : Option IndexRef
  reachability : Option ReachabilityRef
  deriving DecidableEq, Repr

structure BundleEntry where
  id : String
  kind : String
  bundleKey : Key
  sidecarKey : Key
  bundleHash : String
  ref : RefName
  tipOID : OID
  coversManifestVersion : UInt64
  byteSize : Int
  generatedAt : String
  deriving DecidableEq, Repr

structure Body where
  defaultBranch : RefName
  refs : RefMap
  refShards : List RefShard
  refSharding : String
  packs : List PackEntry
  indexes : Indexes
  bundles : List BundleEntry
  deriving DecidableEq

abbrev BodyError := LayoutError UInt8 String Int

def isSupportedRefSharding (tag : String) : Bool := tag = "hash_v1"

def shardFormat : ShardFormat RefShard UInt8 String Int where
  shard := RefShard.shard
  hash := RefShard.hash
  untagged := ""
  isSupported := isSupportedRefSharding
  check index s := do
    Results.require (s.key ≠ "") (.shardKeyEmpty index)
    Results.require (0 ≤ s.refCount) (.shardCountNegative index s.refCount)

def validateRefShards (shards : List RefShard) : Except BodyError Unit :=
  validateRefShardsFrom shardFormat 0 none [] shards

def validateBody (b : Body) : Except BodyError Unit :=
  validateLayout shardFormat (b.refs ≠ ∅) b.refShards b.refSharding

/-- The members of a JSON object in the order they are written. -/
abbrev Members := List (RefName × OID)

/-- A `map[string]string` as JSON: keys in byte order, each coerced to UTF-8. -/
def encodeRefs (refs : RefMap) : Members :=
  (Dict.entries refs).map fun entry => (Utf8.coerce entry.1, entry.2)

def decodeRefs (members : Members) : RefMap := Dict.insertAll members ∅

/-- `MarshalBody`, as the body every later reader decodes from the bytes. -/
def marshalBody (b : Body) : Except BodyError Body := do
  validateBody b
  .ok { b with
    defaultBranch := Utf8.coerce b.defaultBranch
    refs := decodeRefs (encodeRefs b.refs) }

def unmarshalBody (stored : Body) : Except BodyError Body := do
  validateBody stored
  .ok stored

/-! Object keys of one repository, below its key root. -/

def canonicalPackKey (id : PackID) : Key := "packs/canonical/" ++ id ++ ".pack"

def packIdxKey (id : PackID) : Key := "packs/canonical/" ++ id ++ ".idx"

def objectMapKey (hash : String) : Key := "indexes/object-map/" ++ hash ++ ".bvom"

def commitGraphKey (hash : String) : Key := "indexes/commit-graph/" ++ hash ++ ".bvcg"

def reachabilityDeltaKey (hash : String) : Key := "indexes/reachability-delta/" ++ hash ++ ".bvrd"

def refShardKey (hash : String) : Key := "manifest/ref-shards/" ++ hash ++ ".json"

private theorem wrapped_injective (before after : String) :
    Function.Injective fun text : String => before ++ text ++ after := by
  intro left right same
  have lists := congrArg String.toList same
  simp only [String.toList_append] at lists
  exact String.toList_inj.mp (append_cancel_left (append_cancel_right lists))

theorem canonicalPackKey_injective : Function.Injective canonicalPackKey :=
  wrapped_injective "packs/canonical/" ".pack"

theorem objectMapKey_injective : Function.Injective objectMapKey :=
  wrapped_injective "indexes/object-map/" ".bvom"

theorem commitGraphKey_injective : Function.Injective commitGraphKey :=
  wrapped_injective "indexes/commit-graph/" ".bvcg"

theorem reachabilityDeltaKey_injective : Function.Injective reachabilityDeltaKey :=
  wrapped_injective "indexes/reachability-delta/" ".bvrd"

theorem refShardKey_injective : Function.Injective refShardKey :=
  wrapped_injective "manifest/ref-shards/" ".json"

theorem refShardKey_ne_empty (hash : String) : refShardKey hash ≠ "" := by
  intro empty
  have suffix : ".json" = "" := (String.append_eq_empty_iff.mp empty).2
  exact absurd suffix (by decide)

variable {refs : RefMap} {name : RefName} {b stored : Body}

theorem decodeRefs_encodeRefs (stable : ∀ name ∈ refs, Valid name) :
    decodeRefs (encodeRefs refs) = refs := by
  have unchanged : encodeRefs refs = Dict.entries refs := by
    conv_rhs => rw [← List.map_id (Dict.entries refs)]
    apply map_congr_left
    rintro ⟨name, oid⟩ member
    have held := mem_of_lookup_eq_some ((mem_entries refs name oid).mp member)
    have valid : coerce name = name := stable name held
    simp [valid]
  rw [unchanged]
  exact insertAll_entries refs

theorem lookup_decodeRefs_encodeRefs {oid : OID}
    (found : (decodeRefs (encodeRefs refs)).lookup name = some oid) :
    ∃ written, refs.lookup written = some oid ∧ coerce written = name := by
  rcases lookup_insertAll (encodeRefs refs) ∅ found with inside | before
  · obtain ⟨⟨key, value⟩, held, same⟩ := mem_map.mp inside
    cases same
    exact ⟨key, (mem_entries refs key value).mp held, rfl⟩
  · cases before

theorem valid_decodeRefs (member : name ∈ decodeRefs (encodeRefs refs)) : Valid name := by
  obtain ⟨oid, found⟩ := mem_iff.mp member
  obtain ⟨written, -, rfl⟩ := lookup_decodeRefs_encodeRefs found
  exact valid_coerce written

theorem decodeRefs_encodeRefs_eq_empty : decodeRefs (encodeRefs refs) = ∅ ↔ refs = ∅ := by
  constructor
  · intro empty
    apply ext_lookup
    intro name
    cases found : refs.lookup name with
    | none => rfl
    | some oid =>
      have written : (coerce name, oid) ∈ encodeRefs refs :=
        mem_map.mpr ⟨(name, oid), (mem_entries refs name oid).mpr found, rfl⟩
      have read : coerce name ∈ decodeRefs (encodeRefs refs) :=
        mem_insertAll.mpr (.inl (mem_map.mpr ⟨_, written, rfl⟩))
      rw [empty] at read
      exact absurd read notMem_empty
  · rintro rfl
    exact decodeRefs_encodeRefs fun name member => absurd member notMem_empty

theorem validateBody_congr {c : Body} (refs : b.refs = ∅ ↔ c.refs = ∅)
    (shards : b.refShards = c.refShards) (sharding : b.refSharding = c.refSharding) :
    validateBody b = validateBody c := by
  simp [validateBody, refs, shards, sharding]

theorem marshalBody_ok (marshalled : marshalBody b = .ok stored) :
    validateBody b = .ok () ∧ validateBody stored = .ok () ∧
      stored = { b with
        defaultBranch := coerce b.defaultBranch
        refs := decodeRefs (encodeRefs b.refs) } := by
  obtain ⟨⟨⟩, valid, rest⟩ := Results.bind_ok marshalled
  cases rest
  refine ⟨valid, ?_, rfl⟩
  rw [← valid]
  exact validateBody_congr decodeRefs_encodeRefs_eq_empty rfl rfl

theorem unmarshalBody_ok (read : unmarshalBody stored = .ok b) :
    validateBody stored = .ok () ∧ b = stored := by
  obtain ⟨⟨⟩, valid, rest⟩ := Results.bind_ok read
  exact ⟨valid, (Except.ok.inj rest).symm⟩

theorem validateBody_iff : validateBody b = .ok () ↔
    (b.refShards = [] ∧ b.refSharding = "") ∨
      (b.refShards ≠ [] ∧ b.refs = ∅ ∧ b.refSharding = "hash_v1" ∧
        validateRefShards b.refShards = .ok ()) := by
  rw [validateBody, validateLayout_iff (by decide)]
  simp [shardFormat, isSupportedRefSharding, validateRefShards]

theorem validateBody_inline (inline : b.refShards = []) (untagged : b.refSharding = "") :
    validateBody b = .ok () :=
  validateBody_iff.mpr (.inl ⟨inline, untagged⟩)

section

variable (valid : validateBody b = .ok ())

include valid

theorem validateBody_ok :
    (b.refShards = [] ∧ b.refSharding = "") ∨
      (b.refShards ≠ [] ∧ b.refs = ∅ ∧ b.refSharding = "hash_v1") := by
  rcases validateBody_iff.mp valid with inline | ⟨sharded, empty, tagged, -⟩
  · exact .inl inline
  · exact .inr ⟨sharded, empty, tagged⟩

theorem validateRefShards_of_body : validateRefShards b.refShards = .ok () := by
  rcases validateBody_iff.mp valid with ⟨inline, -⟩ | ⟨-, -, -, checked⟩
  · rw [inline]
    rfl
  · exact checked

theorem marshalBody_of_valid :
    marshalBody b = .ok { b with
      defaultBranch := coerce b.defaultBranch
      refs := decodeRefs (encodeRefs b.refs) } := by
  simp [marshalBody, valid]

/-- A valid body with names in UTF-8 is read back as it was written. -/
theorem marshalBody_stable (branch : Valid b.defaultBranch) (names : ∀ name ∈ b.refs, Valid name) :
    marshalBody b = .ok b := by
  rw [marshalBody_of_valid valid, decodeRefs_encodeRefs names,
    show coerce b.defaultBranch = b.defaultBranch from branch]

end

theorem validateRefShards_iff {shards : List RefShard} :
    validateRefShards shards = .ok () ↔
      (∀ s ∈ shards, s.key ≠ "" ∧ 0 ≤ s.refCount) ∧
      shards.Pairwise (fun left right => left.shard < right.shard) ∧
      (shards.map RefShard.hash).Nodup := by
  have loop := validateRefShardsFrom_iff shardFormat
    (fun s => s.key ≠ "" ∧ 0 ≤ s.refCount) UInt8.lt_trans
    (fun different above => UInt8.lt_of_le_of_ne (UInt8.not_lt.mp above) (.symm different))
    UInt8.lt_asymm
    (fun _ _ => by simp [shardFormat, Results.require_bind_ok_iff, Results.require_ok_iff])
    0 none [] shards
  simpa [validateRefShards, shardFormat] using loop

/-! The root manifest as one flat JSON object: the commit kernel owns eight header
keys and passes every other key through untouched. -/

/-- Whole seconds; the source truncates every timestamp it writes. -/
abbrev Time := Nat

abbrev TxID := String

inductive VersionKind where
  | unknown
  | etag
  | generation
  | versionID
  | opaqueToken
  deriving DecidableEq, Repr

structure ObjectVersion where
  provider : String
  token : String
  kind : VersionKind
  deriving DecidableEq, Repr

structure Format where
  objectFormat : String
  compatibility : List String
  deriving DecidableEq, Repr

structure RootHeader where
  schemaVersion : Int
  minReaderVersion : String
  repoID : String
  repoFormat : Format
  manifestVersion : UInt64
  latestTx : TxID
  createdAt : Time
  updatedAt : Time
  deriving DecidableEq, Repr

/-- A JSON value, as far as the header codec looks into it; `raw` is every value it
passes through. -/
inductive Value (V : Type) where
  | number (n : Int)
  | string (text : String)
  | format (f : Format)
  | time (t : Time)
  | raw (value : V)
  deriving DecidableEq

abbrev Fields (V : Type) := Finmap fun _ : String => Value V

/-- The bytes of a `json.RawMessage` by what decoding them into a map gives. -/
inductive RawMessage (V : Type) where
  | empty
  | object (fields : Fields V)
  | null
  | malformed (detail : String)

inductive RepoError where
  | context (text : String)
  | repoExists
  | repoNotFound
  | unsupportedSchema (text : String)
  | callbackFailed (cause : String)
  | versionMismatch
  | storage (text : String)
  | invalid (text : String)

variable {V : Type}

def headerKeys : List String :=
  ["schema_version", "min_reader_version", "repo_id", "repo_format",
    "manifest_version", "latest_tx", "created_at", "updated_at"]

def headerFields (h : RootHeader) : List (String × Value V) :=
  [("schema_version", .number h.schemaVersion),
    ("min_reader_version", .string h.minReaderVersion),
    ("repo_id", .string h.repoID),
    ("repo_format", .format h.repoFormat),
    ("manifest_version", .number h.manifestVersion.toNat),
    ("latest_tx", .string h.latestTx),
    ("created_at", .time h.createdAt),
    ("updated_at", .time h.updatedAt)]

theorem headerFields_keys (h : RootHeader) :
    (headerFields (V := V) h).map Prod.fst = headerKeys := rfl

/-- The top-level map a message decodes to; only an object or no bytes at all give one. -/
def RawMessage.decode : RawMessage V → Except RepoError (Fields V)
  | .empty => .ok ∅
  | .object fields => .ok fields
  | .null => .error (.invalid "repo: body must be a JSON object, got null")
  | .malformed detail => .error (.invalid ("repo: body must be a JSON object: " ++ detail))

def wrapHeaderInBody (h : RootHeader) (body : RawMessage V) : Except RepoError (Fields V) := do
  let top ← body.decode
  match headerKeys.find? fun key => (top.lookup key).isSome with
  | some key =>
    .error (.invalid ("repo: body must not contain reserved header key \"" ++ key ++ "\""))
  | none => .ok (Dict.insertAll (headerFields h) top)

def currentSchemaVersion : Int := 2

def supportedReaderVersion : String := "0.1.0"

/-- The two functions of `golang.org/x/mod/semver` the gate calls. -/
structure Semver where
  isValid : String → Bool
  compare : String → String → Int

def vPrefix (s : String) : String :=
  if s.toList.head? = some 'v' then s else "v" ++ s

def schemaGate (semver : Semver) (schemaVersion : Int) (minReaderVersion : String) :
    Except RepoError Unit :=
  if schemaVersion < 1 ∨ currentSchemaVersion < schemaVersion then
    .error (.unsupportedSchema "schema_version")
  else if minReaderVersion = "" then .ok ()
  else if ¬ semver.isValid (vPrefix minReaderVersion) then
    .error (.unsupportedSchema "min_reader_version is not valid semver")
  else if 0 < semver.compare (vPrefix minReaderVersion) (vPrefix supportedReaderVersion) then
    .error (.unsupportedSchema "min_reader_version exceeds supported")
  else .ok ()

/-! Decoding a header field: an absent key leaves Go's zero value, a value of
another JSON type is an error. -/

def parseNumber : Option (Value V) → Except RepoError Int
  | none => .ok 0
  | some (.number n) => .ok n
  | some _ => .error (.invalid "repo: parse root header")

def parseUint64 (value : Option (Value V)) : Except RepoError UInt64 := do
  let n ← parseNumber value
  if 0 ≤ n ∧ n.toNat < UInt64.size then .ok (UInt64.ofNat n.toNat)
  else .error (.invalid "repo: parse root header")

def parseString : Option (Value V) → Except RepoError String
  | none => .ok ""
  | some (.string text) => .ok text
  | some _ => .error (.invalid "repo: parse root header")

def parseFormat : Option (Value V) → Except RepoError Format
  | none => .ok ⟨"", []⟩
  | some (.format f) => .ok f
  | some _ => .error (.invalid "repo: parse root header")

def parseTime : Option (Value V) → Except RepoError Time
  | none => .ok 0
  | some (.time t) => .ok t
  | some _ => .error (.invalid "repo: parse root header")

def parseHeader (picked : Fields V) : Except RepoError RootHeader := do
  let schemaVersion ← parseNumber (picked.lookup "schema_version")
  let minReaderVersion ← parseString (picked.lookup "min_reader_version")
  let repoID ← parseString (picked.lookup "repo_id")
  let repoFormat ← parseFormat (picked.lookup "repo_format")
  let manifestVersion ← parseUint64 (picked.lookup "manifest_version")
  let latestTx ← parseString (picked.lookup "latest_tx")
  let createdAt ← parseTime (picked.lookup "created_at")
  let updatedAt ← parseTime (picked.lookup "updated_at")
  .ok ⟨schemaVersion, minReaderVersion, repoID, repoFormat, manifestVersion, latestTx,
    createdAt, updatedAt⟩

/-- `manifest.ReadRoot` after the bytes are fetched: the schema gate runs on the two
compatibility fields before the rest of the header is parsed. -/
def readRoot (semver : Semver) (top : Fields V) : Except RepoError (RootHeader × Fields V) := do
  let picked := Dict.pick headerKeys top
  let schemaVersion ← parseNumber (picked.lookup "schema_version")
  let minReaderVersion ← parseString (picked.lookup "min_reader_version")
  schemaGate semver schemaVersion minReaderVersion
  let header ← parseHeader picked
  .ok (header, Dict.eraseAll headerKeys top)

variable {h : RootHeader} {body : RawMessage V} {top : Fields V} {semver : Semver}

theorem wrapHeaderInBody_ok (wrapped : wrapHeaderInBody h body = .ok top) :
    ∃ fields, body.decode = .ok fields ∧ (∀ key ∈ headerKeys, fields.lookup key = none) ∧
      top = insertAll (headerFields h) fields := by
  unfold wrapHeaderInBody at wrapped
  cases decoded : body.decode with
  | error e => simp [decoded] at wrapped
  | ok fields =>
    simp only [decoded, bind, Except.bind] at wrapped
    split at wrapped
    · cases wrapped
    · next clear =>
        refine ⟨fields, rfl, ?_, (Except.ok.inj wrapped).symm⟩
        intro key member
        have absent := List.find?_eq_none.mp clear key member
        simpa using absent

theorem lookup_pick_insertAll_headerFields (h : RootHeader) (fields : Fields V)
    {key : String} {value : Value V} (member : (key, value) ∈ headerFields h) :
    (pick headerKeys (insertAll (headerFields h) fields)).lookup key = some value := by
  have owned : key ∈ headerKeys := by
    rw [← headerFields_keys (V := V) h]
    exact mem_map.mpr ⟨_, member, rfl⟩
  have distinct : ((headerFields (V := V) h).map Prod.fst).Nodup := by
    rw [headerFields_keys]
    decide
  rw [lookup_pick _ _ _ owned, lookup_insertAll_of_mem _ _ distinct member]

theorem parseUint64_toNat (n : UInt64) : parseUint64 (some (.number (V := V) n.toNat)) = .ok n := by
  have bound : ((n.toNat : Int)).toNat < UInt64.size := by
    exact n.toNat_lt_size
  simp only [parseUint64, parseNumber, bind, Except.bind]
  rw [if_pos ⟨Int.natCast_nonneg _, bound⟩, Int.toNat_natCast, UInt64.ofNat_toNat]

attribute [local simp] headerFields

theorem parseHeader_wrapped (h : RootHeader) (fields : Fields V) :
    parseHeader (pick headerKeys (insertAll (headerFields h) fields)) = .ok h := by
  unfold parseHeader
  have found (key : String) (value : Value V) (member : (key, value) ∈ headerFields h) :=
    lookup_pick_insertAll_headerFields h fields member
  rw [found "schema_version" (.number h.schemaVersion) (by simp),
    found "min_reader_version" (.string h.minReaderVersion) (by simp),
    found "repo_id" (.string h.repoID) (by simp),
    found "repo_format" (.format h.repoFormat) (by simp),
    found "manifest_version" (.number h.manifestVersion.toNat) (by simp),
    found "latest_tx" (.string h.latestTx) (by simp),
    found "created_at" (.time h.createdAt) (by simp),
    found "updated_at" (.time h.updatedAt) (by simp)]
  simp [parseNumber, parseString, parseFormat, parseTime, parseUint64_toNat]

theorem readRoot_wrapHeaderInBody (wrapped : wrapHeaderInBody h body = .ok top)
    (gate : schemaGate semver h.schemaVersion h.minReaderVersion = .ok ()) :
    ∃ fields, body.decode = .ok fields ∧ readRoot semver top = .ok (h, fields) := by
  obtain ⟨fields, decoded, fresh, rfl⟩ := wrapHeaderInBody_ok wrapped
  refine ⟨fields, decoded, ?_⟩
  have restored := eraseAll_insertAll (headerFields h) fields
    (by rw [headerFields_keys]; exact fresh)
  rw [headerFields_keys] at restored
  unfold readRoot
  simp only [
    lookup_pick_insertAll_headerFields h fields
      (show ("schema_version", .number h.schemaVersion) ∈ headerFields h by simp),
    lookup_pick_insertAll_headerFields h fields
      (show ("min_reader_version", .string h.minReaderVersion) ∈ headerFields h by
        simp),
    parseNumber, parseString, bind, Except.bind, gate, parseHeader_wrapped, restored]

theorem readRoot_ok {fields : Fields V} (read : readRoot semver top = .ok (h, fields)) :
    schemaGate semver h.schemaVersion h.minReaderVersion = .ok () := by
  unfold readRoot at read
  simp only [bind, Except.bind] at read
  split at read
  · cases read
  next schemaVersion foundSchema =>
  split at read
  · cases read
  next minReader foundReader =>
  split at read
  · cases read
  next passed =>
  split at read
  · cases read
  next header parsed =>
  cases read
  simp only [parseHeader, foundSchema, foundReader, bind, Except.bind] at parsed
  repeat (split at parsed; · cases parsed)
  cases parsed
  exact passed

end BucketVcs.Manifest
