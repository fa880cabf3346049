import BucketVcs.Lib.Json
import BucketVcs.Manifest.Body

/-! The root manifest as JSON: the structs with their field tags, the checks on the ref
layout, and the header spliced into the body's object and taken out again. -/

namespace BucketVcs.Manifest.Wire

open Json Results

/-! A Go string is any bytes; a slice or map is `none` when nil. -/

structure RefShard where
  shard : Bytes
  key : Bytes
  hash : Bytes
  refCount : Int64
  deriving DecidableEq

structure PackEntry where
  packID : Bytes
  packKey : Bytes
  idxKey : Bytes
  sizeBytes : Int64
  objectCount : Int64
  packChecksum : Bytes
  bitmapKey : Bytes
  deriving DecidableEq

structure IndexRef where
  key : Bytes
  hash : Bytes
  sizeBytes : Int64
  deriving DecidableEq

structure ReachabilityRef where
  baseManifest : Bytes
  deltas : Option (List IndexRef)
  deriving DecidableEq

structure Indexes where
  objectMap : Option IndexRef
  commitGraph : Option IndexRef
  reachability : Option ReachabilityRef
  deriving DecidableEq

structure BundleEntry where
  id : Bytes
  kind : Bytes
  bundleKey : Bytes
  sidecarKey : Bytes
  bundleHash : Bytes
  ref : Bytes
  tipOID : Bytes
  coversManifestVersion : UInt64
  byteSize : Int64
  generatedAt : Bytes
  deriving DecidableEq

structure Body where
  defaultBranch : Bytes
  refs : Option (Finmap fun _ : Bytes => Bytes)
  refShards : Option (List RefShard)
  refSharding : Bytes
  packs : Option (List PackEntry)
  indexes : Indexes
  bundles : Option (List BundleEntry)
  deriving DecidableEq

structure Format where
  objectFormat : Bytes
  compatibility : Option (List Bytes)
  deriving DecidableEq

/-- `T` is the type of instants. -/
structure RootHeader (T : Type) where
  schemaVersion : Int64
  minReaderVersion : Bytes
  repoID : Bytes
  repoFormat : Format
  manifestVersion : UInt64
  latestTx : Bytes
  createdAt : T
  updatedAt : T

/-- How an instant is written; not every instant can be. -/
structure Clock (T : Type) where
  zero : T
  print : T → Except Failure Text
  parse : Text → Except Failure T
  parse_print : ∀ t text, print t = .ok text → parse text = .ok t

def emptyShard : RefShard := ⟨[], [], [], 0⟩

def emptyPack : PackEntry := ⟨[], [], [], 0, 0, [], []⟩

def emptyIndex : IndexRef := ⟨[], [], 0⟩

def emptyReachability : ReachabilityRef := ⟨[], none⟩

def emptyBundle : BundleEntry := ⟨[], [], [], [], [], [], [], 0, 0, []⟩

def emptyBody : Body := ⟨[], none, none, [], none, ⟨none, none, none⟩, none⟩

def emptyHeader {T : Type} (clock : Clock T) : RootHeader T :=
  ⟨0, [], [], ⟨[], none⟩, 0, [], clock.zero, clock.zero⟩

/-! ### Field tags -/

def shardFields (s : RefShard) : List (String × Option Json.Value) :=
  [("shard", some (ofText s.shard)), ("key", some (ofText s.key)), ("hash", some (ofText s.hash)),
    ("ref_count", some (ofInt64 s.refCount))]

def packFields (p : PackEntry) : List (String × Option Json.Value) :=
  [("pack_id", some (ofText p.packID)), ("pack_key", some (ofText p.packKey)),
    ("idx_key", some (ofText p.idxKey)), ("size_bytes", some (ofInt64 p.sizeBytes)),
    ("object_count", some (ofInt64 p.objectCount)),
    ("pack_checksum", omitEmpty (p.packChecksum = []) (ofText p.packChecksum)),
    ("bitmap_key", omitEmpty (p.bitmapKey = []) (ofText p.bitmapKey))]

def indexFields (r : IndexRef) : List (String × Option Json.Value) :=
  [("key", some (ofText r.key)), ("hash", some (ofText r.hash)),
    ("size_bytes", omitEmpty (r.sizeBytes = 0) (ofInt64 r.sizeBytes))]

def ofShard (s : RefShard) : Json.Value := .object (ofFields (shardFields s))

def ofPack (p : PackEntry) : Json.Value := .object (ofFields (packFields p))

def ofIndex (r : IndexRef) : Json.Value := .object (ofFields (indexFields r))

def reachabilityFields (r : ReachabilityRef) : List (String × Option Json.Value) :=
  [("base_manifest", some (ofText r.baseManifest)), ("deltas", some (ofSlice ofIndex r.deltas))]

def ofReachability (r : ReachabilityRef) : Json.Value := .object (ofFields (reachabilityFields r))

def indexesFields (i : Indexes) : List (String × Option Json.Value) :=
  [("object_map", omitEmpty i.objectMap.isNone (ofPointer ofIndex i.objectMap)),
    ("commit_graph", omitEmpty i.commitGraph.isNone (ofPointer ofIndex i.commitGraph)),
    ("reachability", omitEmpty i.reachability.isNone (ofPointer ofReachability i.reachability))]

def ofIndexes (i : Indexes) : Json.Value := .object (ofFields (indexesFields i))

def bundleFields (b : BundleEntry) : List (String × Option Json.Value) :=
  [("id", some (ofText b.id)), ("kind", some (ofText b.kind)),
    ("bundle_key", some (ofText b.bundleKey)), ("sidecar_key", some (ofText b.sidecarKey)),
    ("bundle_hash", some (ofText b.bundleHash)), ("ref", some (ofText b.ref)),
    ("tip_oid", some (ofText b.tipOID)),
    ("covers_manifest_version", some (ofUInt64 b.coversManifestVersion)),
    ("byte_size", some (ofInt64 b.byteSize)), ("generated_at", some (ofText b.generatedAt))]

def ofBundle (b : BundleEntry) : Json.Value := .object (ofFields (bundleFields b))

def bodyFields (b : Body) : List (String × Option Json.Value) :=
  [("default_branch", some (ofText b.defaultBranch)),
    ("refs", omitEmpty (b.refs.getD ∅ = ∅) (ofMap ofText b.refs)),
    ("ref_shards", omitEmpty (b.refShards.getD [] = []) (ofSlice ofShard b.refShards)),
    ("ref_sharding", omitEmpty (b.refSharding = []) (ofText b.refSharding)),
    ("packs", some (ofSlice ofPack b.packs)), ("indexes", some (ofIndexes b.indexes)),
    ("bundles", some (ofSlice ofBundle b.bundles))]

def ofBody (b : Body) : Json.Value := .object (ofFields (bodyFields b))

def formatFields (f : Format) : List (String × Option Json.Value) :=
  [("object_format", some (ofText f.objectFormat)),
    ("compatibility", omitEmpty (f.compatibility.getD [] = []) (ofSlice ofText f.compatibility))]

def ofFormat (f : Format) : Json.Value := .object (ofFields (formatFields f))

def headerFields {T : Type} (clock : Clock T) (h : RootHeader T) :
    Except Failure (List (String × Option Json.Value)) := do
  let createdAt ← clock.print h.createdAt
  let updatedAt ← clock.print h.updatedAt
  .ok [("schema_version", some (ofInt64 h.schemaVersion)),
    ("min_reader_version", some (ofText h.minReaderVersion)),
    ("repo_id", some (ofText h.repoID)), ("repo_format", some (ofFormat h.repoFormat)),
    ("manifest_version", some (ofUInt64 h.manifestVersion)),
    ("latest_tx", some (ofText h.latestTx)), ("created_at", some (.string createdAt)),
    ("updated_at", some (.string updatedAt))]

def shardNames : List String := ["shard", "key", "hash", "ref_count"]

def packNames : List String :=
  ["pack_id", "pack_key", "idx_key", "size_bytes", "object_count", "pack_checksum", "bitmap_key"]

def indexNames : List String := ["key", "hash", "size_bytes"]

def reachabilityNames : List String := ["base_manifest", "deltas"]

def indexesNames : List String := ["object_map", "commit_graph", "reachability"]

def bundleNames : List String :=
  ["id", "kind", "bundle_key", "sidecar_key", "bundle_hash", "ref", "tip_oid",
    "covers_manifest_version", "byte_size", "generated_at"]

def bodyNames : List String :=
  ["default_branch", "refs", "ref_shards", "ref_sharding", "packs", "indexes", "bundles"]

def formatNames : List String := ["object_format", "compatibility"]

def compatNames : List String := ["schema_version", "min_reader_version"]

section Decoding

variable (fold : Text → Text)

def intoShard : Into RefShard := intoStruct fun old members => do
  let shard ← intoField fold shardNames "shard" intoText old.shard members
  let key ← intoField fold shardNames "key" intoText old.key members
  let hash ← intoField fold shardNames "hash" intoText old.hash members
  let refCount ← intoField fold shardNames "ref_count" intoInt64 old.refCount members
  .ok ⟨shard, key, hash, refCount⟩

def intoPack : Into PackEntry := intoStruct fun old members => do
  let packID ← intoField fold packNames "pack_id" intoText old.packID members
  let packKey ← intoField fold packNames "pack_key" intoText old.packKey members
  let idxKey ← intoField fold packNames "idx_key" intoText old.idxKey members
  let sizeBytes ← intoField fold packNames "size_bytes" intoInt64 old.sizeBytes members
  let objectCount ← intoField fold packNames "object_count" intoInt64 old.objectCount members
  let packChecksum ← intoField fold packNames "pack_checksum" intoText old.packChecksum members
  let bitmapKey ← intoField fold packNames "bitmap_key" intoText old.bitmapKey members
  .ok ⟨packID, packKey, idxKey, sizeBytes, objectCount, packChecksum, bitmapKey⟩

def intoIndex : Into IndexRef := intoStruct fun old members => do
  let key ← intoField fold indexNames "key" intoText old.key members
  let hash ← intoField fold indexNames "hash" intoText old.hash members
  let sizeBytes ← intoField fold indexNames "size_bytes" intoInt64 old.sizeBytes members
  .ok ⟨key, hash, sizeBytes⟩

def intoReachability : Into ReachabilityRef := intoStruct fun old members => do
  let baseManifest ← intoField fold reachabilityNames "base_manifest" intoText old.baseManifest members
  let deltas ← intoField fold reachabilityNames "deltas" (intoSlice emptyIndex (intoIndex fold))
    old.deltas members
  .ok ⟨baseManifest, deltas⟩

def intoIndexes : Into Indexes := intoStruct fun old members => do
  let objectMap ← intoField fold indexesNames "object_map" (intoPointer emptyIndex (intoIndex fold))
    old.objectMap members
  let commitGraph ← intoField fold indexesNames "commit_graph"
    (intoPointer emptyIndex (intoIndex fold)) old.commitGraph members
  let reachability ← intoField fold indexesNames "reachability"
    (intoPointer emptyReachability (intoReachability fold)) old.reachability members
  .ok ⟨objectMap, commitGraph, reachability⟩

def intoBundle : Into BundleEntry := intoStruct fun old members => do
  let id ← intoField fold bundleNames "id" intoText old.id members
  let kind ← intoField fold bundleNames "kind" intoText old.kind members
  let bundleKey ← intoField fold bundleNames "bundle_key" intoText old.bundleKey members
  let sidecarKey ← intoField fold bundleNames "sidecar_key" intoText old.sidecarKey members
  let bundleHash ← intoField fold bundleNames "bundle_hash" intoText old.bundleHash members
  let ref ← intoField fold bundleNames "ref" intoText old.ref members
  let tipOID ← intoField fold bundleNames "tip_oid" intoText old.tipOID members
  let covers ← intoField fold bundleNames "covers_manifest_version" intoUInt64
    old.coversManifestVersion members
  let byteSize ← intoField fold bundleNames "byte_size" intoInt64 old.byteSize members
  let generatedAt ← intoField fold bundleNames "generated_at" intoText old.generatedAt members
  .ok ⟨id, kind, bundleKey, sidecarKey, bundleHash, ref, tipOID, covers, byteSize, generatedAt⟩

def intoBody : Into Body := intoStruct fun old members => do
  let defaultBranch ← intoField fold bodyNames "default_branch" intoText old.defaultBranch members
  let refs ← intoField fold bodyNames "refs" (intoMap [] intoText) old.refs members
  let refShards ← intoField fold bodyNames "ref_shards" (intoSlice emptyShard (intoShard fold))
    old.refShards members
  let refSharding ← intoField fold bodyNames "ref_sharding" intoText old.refSharding members
  let packs ← intoField fold bodyNames "packs" (intoSlice emptyPack (intoPack fold)) old.packs members
  let indexes ← intoField fold bodyNames "indexes" (intoIndexes fold) old.indexes members
  let bundles ← intoField fold bodyNames "bundles" (intoSlice emptyBundle (intoBundle fold))
    old.bundles members
  .ok ⟨defaultBranch, refs, refShards, refSharding, packs, indexes, bundles⟩

def intoFormat : Into Format := intoStruct fun old members => do
  let objectFormat ← intoField fold formatNames "object_format" intoText old.objectFormat members
  let compatibility ← intoField fold formatNames "compatibility" (intoSlice [] intoText)
    old.compatibility members
  .ok ⟨objectFormat, compatibility⟩

def intoTime {T : Type} (clock : Clock T) : Into T
  | old, .null => .ok old
  | _, .string text => clock.parse text
  | _, _ => .error .kind

def intoHeader {T : Type} (clock : Clock T) : Into (RootHeader T) := intoStruct fun old members => do
  let schemaVersion ← intoField fold headerKeys "schema_version" intoInt64 old.schemaVersion members
  let minReaderVersion ← intoField fold headerKeys "min_reader_version" intoText
    old.minReaderVersion members
  let repoID ← intoField fold headerKeys "repo_id" intoText old.repoID members
  let repoFormat ← intoField fold headerKeys "repo_format" (intoFormat fold) old.repoFormat members
  let manifestVersion ← intoField fold headerKeys "manifest_version" intoUInt64
    old.manifestVersion members
  let latestTx ← intoField fold headerKeys "latest_tx" intoText old.latestTx members
  let createdAt ← intoField fold headerKeys "created_at" (intoTime clock) old.createdAt members
  let updatedAt ← intoField fold headerKeys "updated_at" (intoTime clock) old.updatedAt members
  .ok ⟨schemaVersion, minReaderVersion, repoID, repoFormat, manifestVersion, latestTx, createdAt,
    updatedAt⟩

/-- `compatHeader`: the two fields the schema gate looks at. -/
def intoCompat : Into (Int64 × Bytes) := intoStruct fun old members => do
  let schemaVersion ← intoField fold compatNames "schema_version" intoInt64 old.1 members
  let minReaderVersion ← intoField fold compatNames "min_reader_version" intoText old.2 members
  .ok (schemaVersion, minReaderVersion)

end Decoding

/-! ### The ref layout -/

inductive BodyError where
  | malformed (failure : Failure)
  | layout (cause : LayoutError Bytes Bytes Int64)
  deriving DecidableEq

def isHexDigit (byte : UInt8) : Bool :=
  (0x30 ≤ byte && byte ≤ 0x39) || (0x61 ≤ byte && byte ≤ 0x66) || (0x41 ≤ byte && byte ≤ 0x46)

/-- `strings.ToLower` byte by byte; on text outside ASCII the two differ, but such text
is no hex either. -/
def toLower (text : Bytes) : Bytes :=
  text.map fun byte => if 0x41 ≤ byte ∧ byte ≤ 0x5A then byte + 0x20 else byte

def isShardID (s : Bytes) : Bool := s.length = 2 && s.all isHexDigit && s = toLower s

def hashPrefix : Bytes := Utf8.encode "sha256-"

def isShardHash (h : Bytes) : Bool :=
  hashPrefix.isPrefixOf h &&
    (let rest := h.drop hashPrefix.length
    rest.length = 64 && rest = toLower rest && rest.all isHexDigit)

def isSupportedRefSharding (tag : Bytes) : Bool := tag = Utf8.encode "hash_v1"

def shardFormat : ShardFormat RefShard Bytes Bytes Int64 where
  shard := RefShard.shard
  hash := RefShard.hash
  untagged := []
  isSupported := isSupportedRefSharding
  check index s := do
    Results.require (isShardID s.shard) (.shardID index s.shard)
    Results.require (isShardHash s.hash) (.shardHash index s.hash)
    Results.require (s.key ≠ []) (.shardKeyEmpty index)
    Results.require (0 ≤ s.refCount) (.shardCountNegative index s.refCount)

def Body.shards (b : Body) : List RefShard := b.refShards.getD []

def validateBody (b : Body) : Except BodyError Unit :=
  (validateLayout shardFormat (b.refs.getD ∅ ≠ ∅) b.shards b.refSharding).mapError .layout

/-- One entry of `ref_shards` on its own. -/
structure RefShard.WellFormed (s : RefShard) : Prop where
  id : isShardID s.shard = true
  hash : isShardHash s.hash = true
  key : s.key ≠ []
  count : 0 ≤ s.refCount

/-- The layout of version 1: refs in the body itself. -/
@[mk_iff]
structure Body.Inline (b : Body) : Prop where
  shards : b.shards = []
  untagged : b.refSharding = []

/-- The layout of version 2: refs in shards, in ascending order, each of its own content. -/
@[mk_iff]
structure Body.Sharded (b : Body) : Prop where
  shards : b.shards ≠ []
  refs : b.refs.getD ∅ = ∅
  tagged : b.refSharding = Utf8.encode "hash_v1"
  wellFormed : ∀ s ∈ b.shards, s.WellFormed
  ascending : b.shards.Pairwise fun left right => left.shard < right.shard
  hashes : (b.shards.map RefShard.hash).Nodup

theorem shardFormat_check {index : Nat} {s : RefShard} :
    shardFormat.check index s = .ok () ↔ s.WellFormed := by
  simp only [shardFormat, require_bind_ok_iff, require_ok_iff, decide_eq_true_eq]
  exact ⟨fun ⟨id, hash, key, count⟩ => ⟨id, hash, key, count⟩,
    fun ⟨id, hash, key, count⟩ => ⟨id, hash, key, count⟩⟩

/-- A body passes exactly in one of the two layouts. -/
theorem validateBody_iff {b : Body} : validateBody b = .ok () ↔ b.Inline ∨ b.Sharded := by
  have connex {left right : Bytes} (different : left ≠ right) (above : ¬ left < right) :
      right < left := by
    by_contra below
    exact different (List.le_antisymm (List.not_lt.mp below) (List.not_lt.mp above))
  have loop := validateRefShardsFrom_iff shardFormat _ List.lt_trans connex List.lt_asymm
    (fun _ _ => shardFormat_check) 0 none [] b.shards
  have passes : validateBody b = .ok () ↔
      validateLayout shardFormat (b.refs.getD ∅ ≠ ∅) b.shards b.refSharding = .ok () := by
    rw [validateBody]
    cases validateLayout shardFormat (b.refs.getD ∅ ≠ ∅) b.shards b.refSharding <;> simp [Except.mapError]
  rw [passes, validateLayout_iff (by decide), loop, Body.inline_iff, Body.sharded_iff]
  simp [shardFormat, isSupportedRefSharding]

/-! ### Bytes -/

section Codec

variable {B T : Type} (c : Codec B) (clock : Clock T)

def ReachabilityRef.filled (r : ReachabilityRef) : ReachabilityRef :=
  { r with deltas := some (r.deltas.getD []) }

def Body.filled (b : Body) : Body :=
  { b with
    packs := some (b.packs.getD [])
    bundles := some (b.bundles.getD [])
    indexes := { b.indexes with reachability := b.indexes.reachability.map ReachabilityRef.filled } }

def marshalBody (b : Body) : Except BodyError B := do
  validateBody b
  .ok (c.indent (ofBody b.filled))

def unmarshalBody (raw : B) : Except BodyError Body := do
  let value ← (c.parse raw).mapError .malformed
  let b ← (intoBody c.fold emptyBody value).mapError .malformed
  validateBody b
  .ok (if b.shards = [] ∧ b.refs = none then { b with refs := some ∅ } else b)

def unmarshalRaw (raw : B) : Except Failure (Option (Finmap fun _ : Text => Json.Value)) := do
  let value ← c.parse raw
  intoRaw value

def topFields (body : B) : Except RepoError (Finmap fun _ : Text => Json.Value) :=
  if c.isEmpty body then .ok ∅
  else
    match unmarshalRaw c body with
    | .error _ => .error (.invalid "repo: body must be a JSON object")
    | .ok none => .error (.invalid "repo: body must be a JSON object, got null")
    | .ok (some top) => .ok top

def wrapHeaderInBody (h : RootHeader T) (body : B) : Except RepoError B := do
  let top ← topFields c body
  match headerKeys.find? fun key => (top.lookup (name key)).isSome with
  | some key =>
    .error (.invalid ("repo: body must not contain reserved header key \"" ++ key ++ "\""))
  | none => do
    let fields ← (headerFields clock h).mapError fun _ => .invalid "repo: marshal header"
    let headerJSON := c.compact (.object (ofFields fields))
    let headerMap ← (unmarshalRaw c headerJSON).mapError fun _ => .invalid "repo: re-parse header"
    .ok (c.compact (ofRaw (Dict.insertAll (Dict.entries (headerMap.getD ∅)) top)))

/-- The two functions of `golang.org/x/mod/semver` the gate calls. -/
structure Semver where
  isValid : Bytes → Bool
  compare : Bytes → Bytes → Int

def vPrefix (s : Bytes) : Bytes := if s.head? = some 0x76 then s else 0x76 :: s

def schemaGate (semver : Semver) (schemaVersion : Int64) (minReaderVersion : Bytes) :
    Except RepoError Unit :=
  if schemaVersion < 1 ∨ 2 < schemaVersion then .error (.unsupportedSchema "schema_version")
  else if minReaderVersion = [] then .ok ()
  else if ¬ semver.isValid (vPrefix minReaderVersion) then
    .error (.unsupportedSchema "min_reader_version is not valid semver")
  else if 0 < semver.compare (vPrefix minReaderVersion)
      (vPrefix (Utf8.encode supportedReaderVersion)) then
    .error (.unsupportedSchema "min_reader_version exceeds supported")
  else .ok ()

def readRoot (semver : Semver) (raw : B) : Except RepoError (RootHeader T × B) := do
  let top ← (unmarshalRaw c raw).mapError fun _ => .invalid "repo: parse root manifest"
  let picked := Dict.pick (headerKeys.map name) (top.getD ∅)
  let headerJSON ← (c.parse (c.compact (ofRaw picked))).mapError fun _ =>
    .invalid "repo: parse compat header"
  let compat ← (intoCompat c.fold (0, []) headerJSON).mapError fun _ =>
    .invalid "repo: parse compat header"
  schemaGate semver compat.1 compat.2
  let header ← (intoHeader c.fold clock (emptyHeader clock) headerJSON).mapError fun _ =>
    .invalid "repo: parse root header"
  .ok (header, c.compact (ofRaw (Dict.eraseAll (headerKeys.map name) (top.getD ∅))))

end Codec

end BucketVcs.Manifest.Wire
