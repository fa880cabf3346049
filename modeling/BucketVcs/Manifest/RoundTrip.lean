import BucketVcs.Lib.JsonText
import BucketVcs.Manifest.Wire

/-! What a root manifest is read back as: its header and its body, every string in UTF-8
and nil or empty slices and maps in one form. -/

namespace BucketVcs.Manifest.Wire

open Json List Option Dict Utf8 Results Prod

/-! Each struct with its strings coerced, and the strings that must be UTF-8 for it to
stay as it is. -/

def RefShard.coerced (s : RefShard) : RefShard :=
  { s with shard := Utf8.coerce s.shard, key := Utf8.coerce s.key, hash := Utf8.coerce s.hash }

def RefShard.strings (s : RefShard) : List Bytes := [s.shard, s.key, s.hash]

def PackEntry.coerced (p : PackEntry) : PackEntry :=
  { p with
    packID := Utf8.coerce p.packID
    packKey := Utf8.coerce p.packKey
    idxKey := Utf8.coerce p.idxKey
    packChecksum := Utf8.coerce p.packChecksum
    bitmapKey := Utf8.coerce p.bitmapKey }

def PackEntry.strings (p : PackEntry) : List Bytes :=
  [p.packID, p.packKey, p.idxKey, p.packChecksum, p.bitmapKey]

def IndexRef.coerced (r : IndexRef) : IndexRef :=
  { r with key := Utf8.coerce r.key, hash := Utf8.coerce r.hash }

def IndexRef.strings (r : IndexRef) : List Bytes := [r.key, r.hash]

def ReachabilityRef.coerced (r : ReachabilityRef) : ReachabilityRef :=
  ⟨Utf8.coerce r.baseManifest, r.deltas.map (List.map IndexRef.coerced)⟩

def ReachabilityRef.strings (r : ReachabilityRef) : List Bytes :=
  r.baseManifest :: (r.deltas.getD []).flatMap IndexRef.strings

def Indexes.coerced (i : Indexes) : Indexes :=
  ⟨i.objectMap.map IndexRef.coerced, i.commitGraph.map IndexRef.coerced,
    i.reachability.map ReachabilityRef.coerced⟩

def Indexes.strings (i : Indexes) : List Bytes :=
  i.objectMap.toList.flatMap IndexRef.strings ++ i.commitGraph.toList.flatMap IndexRef.strings ++
    i.reachability.toList.flatMap ReachabilityRef.strings

def BundleEntry.coerced (b : BundleEntry) : BundleEntry :=
  { b with
    id := Utf8.coerce b.id
    kind := Utf8.coerce b.kind
    bundleKey := Utf8.coerce b.bundleKey
    sidecarKey := Utf8.coerce b.sidecarKey
    bundleHash := Utf8.coerce b.bundleHash
    ref := Utf8.coerce b.ref
    tipOID := Utf8.coerce b.tipOID
    generatedAt := Utf8.coerce b.generatedAt }

def BundleEntry.strings (b : BundleEntry) : List Bytes :=
  [b.id, b.kind, b.bundleKey, b.sidecarKey, b.bundleHash, b.ref, b.tipOID, b.generatedAt]

def Body.coerced (b : Body) : Body :=
  { defaultBranch := Utf8.coerce b.defaultBranch
    refs := b.refs.map (rewritten Utf8.coerce)
    refShards := b.refShards.map (List.map RefShard.coerced)
    refSharding := Utf8.coerce b.refSharding
    packs := b.packs.map (List.map PackEntry.coerced)
    indexes := b.indexes.coerced
    bundles := b.bundles.map (List.map BundleEntry.coerced) }

def Body.strings (b : Body) : List Bytes :=
  b.defaultBranch :: b.refSharding ::
    (Dict.entries (b.refs.getD ∅)).flatMap (fun entry => [entry.1, entry.2]) ++
    b.shards.flatMap RefShard.strings ++ (b.packs.getD []).flatMap PackEntry.strings ++
    b.indexes.strings ++ (b.bundles.getD []).flatMap BundleEntry.strings

def Format.coerced (f : Format) : Format :=
  ⟨Utf8.coerce f.objectFormat, f.compatibility.map (List.map Utf8.coerce)⟩

def Format.strings (f : Format) : List Bytes := f.objectFormat :: f.compatibility.getD []

variable {T α : Type} {s : RefShard} {b : Body} {f : α → α} {items : List α}

def RootHeader.coerced (h : RootHeader T) : RootHeader T :=
  { h with
    minReaderVersion := Utf8.coerce h.minReaderVersion
    repoID := Utf8.coerce h.repoID
    repoFormat := h.repoFormat.coerced
    latestTx := Utf8.coerce h.latestTx }

def RootHeader.strings (h : RootHeader T) : List Bytes :=
  h.minReaderVersion :: h.repoID :: h.latestTx :: h.repoFormat.strings

/-! The form of nil and empty values after a round trip. -/

def dropEmpty : Option (List α) → Option (List α)
  | some [] => none
  | items => items

def RootHeader.normalised (h : RootHeader T) : RootHeader T :=
  { h with repoFormat := { h.repoFormat with compatibility := dropEmpty h.repoFormat.compatibility } }

/-- An inline body has a ref map and no shards, a sharded one no ref map. -/
def Body.normalised (b : Body) : Body :=
  { b.filled with
    refs := if b.shards = [] then some (b.refs.getD ∅) else none
    refShards := dropEmpty b.refShards }

/-! ### Structs are read back coerced -/

section Structs

variable (fold : Text → Text)

theorem read_omitText (text : Bytes) :
    (omitEmpty (text = []) (ofText text)).elim (.ok []) (intoText []) = .ok (coerce text) := by
  apply read_omitEmpty (intoText_ofText [] text)
  intro empty
  rw [of_decide_eq_true empty]
  rfl

theorem read_omitInt64 (n : Int64) :
    (omitEmpty (n = 0) (ofInt64 n)).elim (.ok 0) (intoInt64 0) = .ok n :=
  read_omitEmpty (intoInt64_ofInt64 0 n) fun empty => of_decide_eq_true empty

attribute [local simp] intoText_ofText intoInt64_ofInt64 lookup_cons Body.normalised Body.coerced

theorem intoShard_ofShard (s : RefShard) : intoShard fold emptyShard (ofShard s) = .ok s.coerced := by
  simp only [intoShard, ofShard, intoStruct,
    intoField_ofFields fold (show (shardFields s).map fst = shardNames from rfl) (by decide)]
  simp [shardFields, RefShard.coerced]

theorem intoPack_ofPack (p : PackEntry) : intoPack fold emptyPack (ofPack p) = .ok p.coerced := by
  simp only [intoPack, ofPack, intoStruct,
    intoField_ofFields fold (show (packFields p).map fst = packNames from rfl) (by decide)]
  simp [packFields, PackEntry.coerced, emptyPack, read_omitText]

theorem intoIndex_ofIndex (r : IndexRef) : intoIndex fold emptyIndex (ofIndex r) = .ok r.coerced := by
  simp only [intoIndex, ofIndex, intoStruct,
    intoField_ofFields fold (show (indexFields r).map fst = indexNames from rfl) (by decide)]
  simp [indexFields, IndexRef.coerced, emptyIndex, read_omitInt64]

theorem intoReachability_ofReachability (r : ReachabilityRef) :
    intoReachability fold emptyReachability (ofReachability r) = .ok r.coerced := by
  simp only [intoReachability, ofReachability, intoStruct, intoField_ofFields fold
    (show (reachabilityFields r).map fst = reachabilityNames from rfl) (by decide)]
  simp [reachabilityFields, ReachabilityRef.coerced, emptyReachability,
    intoSlice_ofSlice (intoIndex_ofIndex fold)]

variable {α : Type} {zero : α} {into : Into α} {encode : α → Json.Value} {seen : α → α}

theorem read_omitPointer (reads : ∀ x, into zero (encode x) = .ok (seen x))
    (solid : ∀ x, encode x ≠ .null) (pointer : Option α) :
    (omitEmpty pointer.isNone (ofPointer encode pointer)).elim (.ok none)
      (intoPointer zero into none) = .ok (pointer.map seen) := by
  apply read_omitEmpty (intoPointer_ofPointer reads solid pointer)
  intro empty
  rw [isNone_iff_eq_none.mp empty]
  rfl

theorem intoIndexes_ofIndexes (i : Indexes) :
    intoIndexes fold ⟨none, none, none⟩ (ofIndexes i) = .ok i.coerced := by
  have index := read_omitPointer (intoIndex_ofIndex fold) (fun _ => nofun)
  have chain := read_omitPointer (intoReachability_ofReachability fold) (fun _ => nofun)
  simp only [intoIndexes, ofIndexes, intoStruct, intoField_ofFields fold
    (show (indexesFields i).map fst = indexesNames from rfl) (by decide)]
  simp [indexesFields, Indexes.coerced, index, chain]

theorem intoBundle_ofBundle (b : BundleEntry) :
    intoBundle fold emptyBundle (ofBundle b) = .ok b.coerced := by
  simp only [intoBundle, ofBundle, intoStruct,
    intoField_ofFields fold (show (bundleFields b).map fst = bundleNames from rfl) (by decide)]
  simp [bundleFields, intoUInt64_ofUInt64, BundleEntry.coerced]

theorem read_omitSlice [DecidableEq α] (reads : ∀ x, into zero (encode x) = .ok (seen x))
    (items : Option (List α)) :
    (omitEmpty (items.getD [] = []) (ofSlice encode items)).elim (.ok none)
      (intoSlice zero into none) = .ok (dropEmpty (items.map (List.map seen))) := by
  cases items with
  | none => rfl
  | some items =>
    cases items with
    | nil => rfl
    | cons item items => exact intoSlice_ofSlice reads (some (item :: items))

theorem intoFormat_ofFormat (f : Format) :
    intoFormat fold ⟨[], none⟩ (ofFormat f) =
      .ok { f.coerced with compatibility := dropEmpty f.coerced.compatibility } := by
  simp only [intoFormat, ofFormat, intoStruct,
    intoField_ofFields fold (show (formatFields f).map fst = formatNames from rfl) (by decide)]
  simp [formatFields, bind, Except.bind, Format.coerced, read_omitSlice (intoText_ofText [])]

/-- The body that is decoded from what `b` was written as, before `UnmarshalBody` looks at it. -/
def Body.decoded (b : Body) : Body :=
  { b.coerced with
    refs := if b.refs.getD ∅ = ∅ then none else b.coerced.refs
    refShards := dropEmpty b.coerced.refShards }

theorem read_omitRefs (refs : Option (Finmap fun _ : Bytes => Bytes)) :
    (omitEmpty (refs.getD ∅ = ∅) (ofMap ofText refs)).elim (.ok none) (intoMap [] intoText none) =
      .ok (if refs.getD ∅ = ∅ then none else refs.map (rewritten coerce)) := by
  by_cases empty : refs.getD ∅ = ∅
  · simp [omitEmpty, empty]
  · simp [omitEmpty, empty, intoMap_ofMap (intoText_ofText [])]

theorem intoBody_of_fields (b : Body) {members : Json.Members}
    (fieldwise : ∀ (β : Type) (field : String) (read : Into β) (old : β),
      intoField fold bodyNames field read old members =
        ((bodyFields b).lookup field).join.elim (.ok old) (read old)) :
    intoBody fold emptyBody (.object members) = .ok b.decoded := by
  simp only [intoBody, intoStruct, fieldwise]
  simp [bodyFields, Body.decoded, emptyBody, read_omitText, read_omitRefs,
    read_omitSlice (intoShard_ofShard fold), intoSlice_ofSlice (intoPack_ofPack fold),
    intoIndexes_ofIndexes, intoSlice_ofSlice (intoBundle_ofBundle fold)]

end Structs

/-! ### A layout stays what it is -/

theorem ascii_of_hex {text : Bytes} (hex : text.all isHexDigit = true) :
    ∀ byte ∈ text, byte ≤ 0x7F := by
  intro byte member
  have digit := List.all_eq_true.mp hex byte member
  simp only [isHexDigit, Bool.or_eq_true, Bool.and_eq_true, decide_eq_true_eq] at digit
  rcases digit with (⟨-, low⟩ | ⟨-, low⟩) | ⟨-, low⟩
  all_goals exact UInt8.le_trans low (by decide)

theorem valid_shardID {shard : Bytes} (shaped : isShardID shard = true) : Valid shard := by
  simp only [isShardID, Bool.and_eq_true] at shaped
  exact valid_of_ascii (ascii_of_hex shaped.1.2)

theorem valid_shardHash {hash : Bytes} (shaped : isShardHash hash = true) : Valid hash := by
  simp only [isShardHash, Bool.and_eq_true] at shaped
  obtain ⟨front, -, hex⟩ := shaped
  obtain ⟨rest, rfl⟩ := isPrefixOf_iff_prefix.mp front
  have known : (hashPrefix.all fun byte => decide (byte ≤ 0x7F)) = true := by decide
  apply valid_of_ascii
  intro byte member
  rcases mem_append.mp member with early | late
  · exact of_decide_eq_true (List.all_eq_true.mp known byte early)
  · exact ascii_of_hex hex byte late

theorem RefShard.WellFormed.coerced_eq (fine : s.WellFormed) :
    s.coerced = { s with key := coerce s.key } := by
  simp only [RefShard.coerced, show coerce s.shard = s.shard from valid_shardID fine.id,
    show coerce s.hash = s.hash from valid_shardHash fine.hash]

theorem RefShard.WellFormed.coerced (fine : s.WellFormed) : s.coerced.WellFormed := by
  rw [fine.coerced_eq]
  exact ⟨fine.id, fine.hash, fun empty => fine.key (coerce_eq_nil.mp empty), fine.count⟩

theorem shards_decoded (b : Body) : b.decoded.shards = b.shards.map RefShard.coerced := by
  cases shards : b.refShards with
  | none => simp [Body.decoded, Body.coerced, Body.shards, shards, dropEmpty]
  | some items =>
    cases items with
    | nil | cons item items => simp [Body.decoded, Body.coerced, Body.shards, shards, dropEmpty]

theorem Body.Inline.decoded (inline : b.Inline) : b.decoded.Inline := by
  refine ⟨?_, ?_⟩
  · rw [shards_decoded, inline.shards]
    rfl
  · exact coerce_eq_nil.mpr inline.untagged

theorem Body.Sharded.decoded (sharded : b.Sharded) : b.decoded.Sharded := by
  have same : ∀ s ∈ b.shards, s.coerced.shard = s.shard ∧ s.coerced.hash = s.hash := by
    intro s member
    rw [(sharded.wellFormed s member).coerced_eq]
    exact ⟨rfl, rfl⟩
  constructor
  · rw [shards_decoded]
    simpa using sharded.shards
  · simp [Body.decoded, sharded.refs]
  · exact (congrArg coerce sharded.tagged).trans (valid_encode "hash_v1")
  · rw [shards_decoded]
    intro s member
    obtain ⟨written, held, rfl⟩ := List.mem_map.mp member
    exact (sharded.wellFormed written held).coerced
  · rw [shards_decoded, pairwise_map]
    refine sharded.ascending.imp_of_mem ?_
    intro left right inLeft inRight below
    rwa [(same left inLeft).1, (same right inRight).1]
  · rw [shards_decoded, List.map_map]
    have kept : b.shards.map (RefShard.hash ∘ RefShard.coerced) = b.shards.map RefShard.hash :=
      map_congr_left fun s member => (same s member).2
    rw [kept]
    exact sharded.hashes

section

variable (valid : validateBody b = .ok ())
include valid

theorem validateBody_decoded : validateBody b.decoded = .ok () := by
  rw [validateBody_iff] at valid ⊢
  exact valid.imp .decoded .decoded

theorem validateBody_filled : validateBody b.filled = .ok () := valid

/-! ### Through the bytes -/

theorem normalised_decoded :
    (if b.filled.decoded.shards = [] ∧ b.filled.decoded.refs = none then
      { b.filled.decoded with refs := some ∅ } else b.filled.decoded) = b.coerced.normalised := by
  have chain (r : ReachabilityRef) : r.filled.coerced = r.coerced.filled := by
    cases deltas : r.deltas <;> simp [ReachabilityRef.filled, ReachabilityRef.coerced, deltas]
  have indexes : b.filled.indexes.coerced = b.coerced.filled.indexes := by
    cases present : b.indexes.reachability <;>
      simp [Body.filled, Body.coerced, Indexes.coerced, present, chain]
  have packs : b.filled.packs.map (.map .coerced) = b.coerced.filled.packs := by
    cases present : b.packs <;> simp [Body.filled, Body.coerced, present]
  have bundles : b.filled.bundles.map (.map .coerced) = b.coerced.filled.bundles := by
    cases present : b.bundles <;> simp [Body.filled, Body.coerced, present]
  have shards : b.coerced.shards = b.shards.map .coerced := by
    cases present : b.refShards <;> simp [Body.shards, Body.coerced, present]
  have decoded : b.filled.decoded = { b.coerced.normalised with
      refs := if b.refs.getD ∅ = ∅ then none else b.coerced.refs } := by
    simp only [Body.decoded, Body.coerced] at indexes packs bundles ⊢
    simp only [indexes, packs, bundles]
    rfl
  have refs : b.coerced.refs = b.refs.map (rewritten coerce) := rfl
  rw [shards_decoded, decoded]
  rcases validateBody_iff.mp valid with inline | sharded
  · have none : b.filled.shards = [] := inline.shards
    cases present : b.refs with
    | none => simp [Body.normalised, shards, inline.shards, none, refs, present]
    | some held =>
      by_cases empty : held = ∅
      · simp [Body.normalised, shards, inline.shards, none, refs, present, empty,
          rewritten_eq_empty.mpr]
      · simp [Body.normalised, shards, inline.shards, refs, present, empty]
  · have some : b.filled.shards ≠ [] := sharded.shards
    simp [Body.normalised, shards, sharded.shards, some, sharded.refs]

end

section Codec

variable {B T : Type} {c : Codec B} {clock : Clock T}

variable {b : Body} {h : RootHeader T} {fields : List (String × Option Json.Value)}
  {top : Finmap fun _ : Text => Json.Value} {body : B}

theorem unmarshalBody_of_fields (valid : validateBody b = .ok ()) {raw : B} {members : Json.Members}
    (parsed : c.parse raw = .ok (.object members))
    (fieldwise : ∀ (β : Type) (field : String) (read : Into β) (old : β),
      intoField c.fold bodyNames field read old members =
        ((bodyFields b.filled).lookup field).join.elim (.ok old) (read old)) :
    unmarshalBody c raw = .ok b.coerced.normalised := by
  unfold unmarshalBody
  rw [parsed, mapError_value]
  simp only [bind, Except.bind]
  rw [intoBody_of_fields c.fold b.filled fieldwise, mapError_value]
  simp only [validateBody_decoded (validateBody_filled valid), normalised_decoded valid]

theorem unmarshalRaw_ofRaw (m : Finmap fun _ : Text => Json.Value) :
    unmarshalRaw c (c.compact (ofRaw m)) = .ok (some m) := by
  simp [unmarshalRaw, c.parse_compact, ofRaw, intoRaw, insertAll_entries]

theorem headerFields_ok (printed : headerFields clock h = .ok fields) :
    fields.map fst = headerKeys ∧ (∀ field ∈ fields, field.2 ≠ none) := by
  obtain ⟨createdAt, -, rest⟩ := bind_ok printed
  obtain ⟨updatedAt, -, rest⟩ := bind_ok rest
  cases rest
  exact ⟨rfl, by simp⟩

theorem intoHeader_raw (fold : Text → Text) (printed : headerFields clock h = .ok fields) :
    intoHeader fold clock (emptyHeader clock) (ofRaw (insertAll (ofFields fields) ∅)) =
      .ok h.coerced.normalised := by
  have shape := (headerFields_ok printed).1
  simp only [intoHeader, ofRaw, intoStruct, intoField_raw fold shape (by decide)]
  obtain ⟨createdAt, created, rest⟩ := bind_ok printed
  obtain ⟨updatedAt, updated, rest⟩ := bind_ok rest
  cases rest
  simp [lookup_cons, intoText_ofText, intoInt64_ofInt64, intoUInt64_ofUInt64, emptyHeader,
    intoFormat_ofFormat, intoTime, clock.parse_print _ _ created, clock.parse_print _ _ updated,
    RootHeader.coerced, RootHeader.normalised]

theorem intoCompat_raw (printed : headerFields clock h = .ok fields) :
    intoCompat c.fold (0, []) (ofRaw (insertAll (ofFields fields) ∅)) =
      .ok (h.schemaVersion, coerce h.minReaderVersion) := by
  have shape := (headerFields_ok printed).1
  have distinct : (fields.map fst).Nodup := by
    rw [shape]
    decide
  have plain := List.all_eq_true.mp (show headerKeys.all isPlain = true by decide)
  have read (β : Type) (field : String) (known : field ∈ headerKeys) (into : Into β) (old : β) :
      intoField c.fold compatNames field into old
        (Dict.entries (insertAll (ofFields fields) ∅)) =
          (fields.lookup field).join.elim (.ok old) (into old) := by
    rw [intoField_eq into old (Dict.nodup_entries _), lookup_entries, lookup_raw_ofFields distinct]
    intro member inside different
    have held := (mem_entries _ member.1 member.2).mp inside
    have owned := mem_keys_ofFields (Finmap.mem_of_lookup_eq_some held)
    rw [shape] at owned
    obtain ⟨other, listed, same⟩ := List.mem_map.mp owned
    refine .inr fun folded => different ?_
    rw [← same] at folded ⊢
    rw [c.fold_plain other field (plain other listed) (plain field known) folded]
  simp only [intoCompat, ofRaw, intoStruct, read _ "schema_version" (by decide),
    read _ "min_reader_version" (by decide)]
  obtain ⟨createdAt, -, rest⟩ := bind_ok printed
  obtain ⟨updatedAt, -, rest⟩ := bind_ok rest
  cases rest
  simp [lookup_cons, intoText_ofText, intoInt64_ofInt64]

theorem ofFields_keys (printed : headerFields clock h = .ok fields) :
    (ofFields fields).map fst = headerKeys.map name := by
  obtain ⟨createdAt, -, rest⟩ := bind_ok printed
  obtain ⟨updatedAt, -, rest⟩ := bind_ok rest
  cases rest
  rfl

theorem nodup_headerKeys : (headerKeys.map name).Nodup :=
  .map name_injective (by decide)

theorem readRoot_spliced (semver : Semver) (printed : headerFields clock h = .ok fields)
    (free : ∀ key ∈ headerKeys, top.lookup (name key) = none) :
    readRoot c clock semver (c.compact (ofRaw (insertAll (ofFields fields) top))) =
      (schemaGate semver h.schemaVersion (coerce h.minReaderVersion)).map fun _ =>
        (h.coerced.normalised, c.compact (ofRaw top)) := by
  have keys := ofFields_keys printed
  have picked : pick (headerKeys.map name) (insertAll (ofFields fields) top) =
      insertAll (ofFields fields) ∅ := by
    rw [← keys]
    apply pick_insertAll
    rw [keys]
    exact nodup_headerKeys
  have rest : eraseAll (headerKeys.map name) (insertAll (ofFields fields) top) = top := by
    rw [← keys]
    apply eraseAll_insertAll
    rw [keys]
    intro key member
    obtain ⟨text, listed, rfl⟩ := List.mem_map.mp member
    exact free text listed
  unfold readRoot
  simp only [unmarshalRaw_ofRaw, mapError_value, bind, Except.bind, getD_some, picked,
    rest, c.parse_compact, intoCompat_raw printed, intoHeader_raw c.fold printed]
  cases schemaGate semver h.schemaVersion (coerce h.minReaderVersion) with
  | error cause => rfl
  | ok passed => rfl

theorem find_none_iff :
    (headerKeys.find? fun key => (top.lookup (name key)).isSome) = none ↔
      ∀ key ∈ headerKeys, top.lookup (name key) = none := by
  rw [List.find?_eq_none]
  constructor
  · intro clear key member
    simpa using clear key member
  · intro free key member
    simp [free key member]

theorem wrapHeaderInBody_of_free (decoded : topFields c body = .ok top)
    (free : ∀ key ∈ headerKeys, top.lookup (name key) = none)
    (printed : headerFields clock h = .ok fields) :
    wrapHeaderInBody c clock h body =
      .ok (c.compact (ofRaw (insertAll (ofFields fields) top))) := by
  have distinct : ((ofFields fields).map fst).Nodup := by
    rw [ofFields_keys printed]
    exact nodup_headerKeys
  unfold wrapHeaderInBody
  simp only [decoded, bind, Except.bind, find_none_iff.mpr free, printed, mapError_value,
    unmarshalRaw, c.parse_compact, intoRaw, getD_some,
    insertAll_entries_insertAll top distinct]

theorem wrapHeaderInBody_ok {root : B} (wrapped : wrapHeaderInBody c clock h body = .ok root) :
    ∃ top fields, topFields c body = .ok top ∧
      (∀ key ∈ headerKeys, top.lookup (name key) = none) ∧ headerFields clock h = .ok fields ∧
      root = c.compact (ofRaw (insertAll (ofFields fields) top)) := by
  obtain ⟨top, decoded, rest⟩ := bind_ok wrapped
  cases clash : headerKeys.find? fun key => (top.lookup (name key)).isSome with
  | some key => simp [clash] at rest
  | none =>
    have free := find_none_iff.mp clash
    simp only [clash] at rest
    obtain ⟨fields, printed, -⟩ := bind_ok rest
    have printed := mapError_ok printed
    rw [wrapHeaderInBody_of_free decoded free printed] at wrapped
    exact ⟨top, fields, decoded, free, printed, (Except.ok.inj wrapped).symm⟩

def roundTrip (c : Codec B) (clock : Clock T) (semver : Semver) (h : RootHeader T) (b : Body) :
    Except (BodyError ⊕ RepoError) (RootHeader T × Body) := do
  let raw ← (marshalBody c b).mapError .inl
  let root ← (wrapHeaderInBody c clock h raw).mapError .inr
  let read ← (readRoot c clock semver root).mapError .inr
  let body ← (unmarshalBody c read.2).mapError .inl
  .ok (read.1, body)

theorem topFields_marshalled (b : Body) :
    topFields c (c.indent (ofBody b)) = .ok (insertAll (ofFields (bodyFields b)) ∅) := by
  have written : ¬ c.isEmpty (c.indent (ofBody b)) = true := by
    intro empty
    have parsed := c.parse_indent (ofBody b)
    rw [c.parse_isEmpty _ empty] at parsed
    cases parsed
  rw [topFields, if_neg written]
  simp [unmarshalRaw, c.parse_indent, ofBody, intoRaw]

theorem bodyFields_free (b : Body) : ∀ key ∈ headerKeys,
    (insertAll (ofFields (bodyFields b)) ∅).lookup (name key) = none := by
  have apart : ∀ key ∈ headerKeys, key ∉ bodyNames := by decide
  intro key member
  rw [Finmap.lookup_eq_none]
  intro held
  obtain ⟨field, listed, same⟩ := List.mem_map.mp (mem_keys_ofFields held)
  cases name_inj.mp same
  exact apart _ member listed

theorem roundTrip_eq (semver : Semver) (valid : validateBody b = .ok ())
    (printed : headerFields clock h = .ok fields) :
    roundTrip c clock semver h b =
      ((schemaGate semver h.schemaVersion (coerce h.minReaderVersion)).mapError .inr).map
        fun _ => (h.coerced.normalised, b.coerced.normalised) := by
  have free := bodyFields_free b.filled
  have wrapped := wrapHeaderInBody_of_free (topFields_marshalled (c := c) b.filled) free printed
  have read := readRoot_spliced (c := c) semver printed free
  have body : unmarshalBody c (c.compact (ofRaw (insertAll (ofFields (bodyFields b.filled)) ∅))) =
      .ok b.coerced.normalised :=
    unmarshalBody_of_fields valid (c.parse_compact _) fun _ field into old =>
      intoField_raw c.fold (show (bodyFields b.filled).map fst = bodyNames from rfl) (by decide)
        field into old
  simp only [roundTrip, marshalBody, valid, bind, Except.bind, mapError_value, wrapped, read]
  cases schemaGate semver h.schemaVersion (coerce h.minReaderVersion) with
  | error cause => rfl
  | ok passed =>
    simp [Except.map, body]

end Codec

/-! ### Which manifests come back as they were -/

theorem map_eq_self : items.map f = items ↔ ∀ item ∈ items, f item = item := by
  conv_lhs => rhs; rw [← List.map_id items]
  exact map_inj_left

theorem RefShard.coerced_eq_self : s.coerced = s ↔ ∀ text ∈ s.strings, Valid text := by
  cases s
  simp [RefShard.coerced, RefShard.strings, Utf8.Valid]

theorem PackEntry.coerced_eq_self {p : PackEntry} :
    p.coerced = p ↔ ∀ text ∈ p.strings, Valid text := by
  cases p
  simp [PackEntry.coerced, PackEntry.strings, Utf8.Valid]

theorem IndexRef.coerced_eq_self {r : IndexRef} :
    r.coerced = r ↔ ∀ text ∈ r.strings, Valid text := by
  cases r
  simp [IndexRef.coerced, IndexRef.strings, Utf8.Valid]

theorem BundleEntry.coerced_eq_self {b : BundleEntry} :
    b.coerced = b ↔ ∀ text ∈ b.strings, Valid text := by
  cases b
  simp [BundleEntry.coerced, BundleEntry.strings, Utf8.Valid]

variable {strings : α → List Bytes}

theorem map_coerced_eq_self {coerced : α → α}
    (one : ∀ item, coerced item = item ↔ ∀ text ∈ strings item, Valid text) :
    items.map coerced = items ↔ ∀ text ∈ items.flatMap strings, Valid text := by
  rw [map_eq_self]
  simp only [one, mem_flatMap]
  constructor
  · rintro each text ⟨item, member, inside⟩
    exact each item member text inside
  · intro every item member text inside
    exact every text ⟨item, member, inside⟩

theorem pointer_coerced_eq_self {coerced : α → α}
    (one : ∀ item, coerced item = item ↔ ∀ text ∈ strings item, Valid text) {pointer : Option α} :
    pointer.map coerced = pointer ↔ ∀ text ∈ pointer.toList.flatMap strings, Valid text := by
  cases pointer with
  | none => simp
  | some item => simp [one]

theorem ReachabilityRef.coerced_filled_eq {r : ReachabilityRef} :
    r.coerced.filled = r.filled ↔ ∀ text ∈ r.strings, Valid text := by
  have deltas : (r.deltas.map (List.map IndexRef.coerced)).getD [] =
      (r.deltas.getD []).map IndexRef.coerced := by
    cases r.deltas <;> rfl
  simp only [ReachabilityRef.coerced, ReachabilityRef.filled, ReachabilityRef.strings, deltas,
    ReachabilityRef.mk.injEq, some.injEq, mem_cons, forall_eq_or_imp,
    map_coerced_eq_self fun item => IndexRef.coerced_eq_self (r := item)]
  rfl

theorem refs_coerced_eq {refs : Finmap fun _ : Bytes => Bytes} :
    rewritten coerce refs = refs ↔
      ∀ text ∈ (entries refs).flatMap (fun entry => [entry.1, entry.2]), Valid text := by
  rw [rewritten_eq_self valid_coerce]
  simp only [mem_flatMap, mem_cons, not_mem_nil, or_false, Prod.exists, mem_entries]
  constructor
  · rintro each text ⟨key, value, found, rfl | rfl⟩
    · exact (each _ _ found).1
    · exact (each _ _ found).2
  · intro every key value found
    exact ⟨every key ⟨key, value, found, .inl rfl⟩, every value ⟨key, value, found, .inr rfl⟩⟩

theorem getD_map (f : α → α) (items : Option (List α)) :
    (items.map (List.map f)).getD [] = (items.getD []).map f := by
  cases items <;> rfl

theorem dropEmpty_map_eq {items : Option (List α)} :
    dropEmpty (items.map (List.map f)) = dropEmpty items ↔
      (items.getD []).map f = items.getD [] := by
  cases items with
  | none => simp [dropEmpty]
  | some items => cases items <;> simp [dropEmpty]

theorem Indexes.coerced_filled_eq {i : Indexes} :
    ({ i.coerced with
        reachability := i.coerced.reachability.map ReachabilityRef.filled } : Indexes) =
      { i with reachability := i.reachability.map ReachabilityRef.filled } ↔
        ∀ text ∈ i.strings, Valid text := by
  have chain : (i.reachability.map ReachabilityRef.coerced).map ReachabilityRef.filled =
      i.reachability.map ReachabilityRef.filled ↔
        ∀ text ∈ i.reachability.toList.flatMap ReachabilityRef.strings, Utf8.Valid text := by
    cases i.reachability with
    | none => simp
    | some r => simp [ReachabilityRef.coerced_filled_eq]
  have index : ∀ pointer : Option IndexRef, pointer.map IndexRef.coerced = pointer ↔
      ∀ text ∈ pointer.toList.flatMap IndexRef.strings, Utf8.Valid text :=
    fun _ => pointer_coerced_eq_self fun _ => IndexRef.coerced_eq_self
  simp only [Indexes.coerced, Indexes.strings, Indexes.mk.injEq, index, mem_append,
    or_imp, forall_and]
  tauto

/-- A valid body comes back as it was exactly when all its strings are UTF-8. -/
theorem Body.coerced_normalised_eq (valid : validateBody b = .ok ()) :
    b.coerced.normalised = b.normalised ↔ ∀ text ∈ b.strings, Valid text := by
  have shards : b.coerced.shards = b.shards.map RefShard.coerced := getD_map _ _
  have refs : b.coerced.normalised.refs = b.normalised.refs ↔
      ∀ text ∈ (Dict.entries (b.refs.getD ∅)).flatMap (fun entry => [entry.1, entry.2]),
        Utf8.Valid text := by
    rw [← refs_coerced_eq]
    have written : b.coerced.refs = b.refs.map (rewritten coerce) := rfl
    rcases validateBody_iff.mp valid with inline | sharded
    · cases present : b.refs with
      | none => simp [Body.normalised, shards, written, present, rewritten_eq_empty]
      | some held => simp [Body.normalised, shards, inline.shards, written, present]
    · have kept : rewritten coerce (b.refs.getD ∅) = b.refs.getD ∅ := by
        rw [sharded.refs]
        exact rewritten_eq_empty.mpr rfl
      simp [Body.normalised, shards, sharded.shards, kept]
  have parts : b.coerced.normalised = b.normalised ↔
      Utf8.Valid b.defaultBranch ∧ b.coerced.normalised.refs = b.normalised.refs ∧
      b.shards.map RefShard.coerced = b.shards ∧ Utf8.Valid b.refSharding ∧
      (b.packs.getD []).map PackEntry.coerced = b.packs.getD [] ∧
      (∀ text ∈ b.indexes.strings, Utf8.Valid text) ∧
      (b.bundles.getD []).map BundleEntry.coerced = b.bundles.getD [] := by
    rw [← getD_map PackEntry.coerced, ← getD_map BundleEntry.coerced, ← Indexes.coerced_filled_eq,
      ← some.injEq ((b.packs.map _).getD []), ← some.injEq ((b.bundles.map _).getD []),
      Body.shards, ← dropEmpty_map_eq]
    have fieldwise : (b.coerced.normalised = b.normalised) = _ := Body.mk.injEq ..
    rw [fieldwise]
    exact Iff.rfl
  rw [parts, refs, map_coerced_eq_self fun item => RefShard.coerced_eq_self (s := item),
    map_coerced_eq_self fun item => PackEntry.coerced_eq_self (p := item),
    map_coerced_eq_self fun item => BundleEntry.coerced_eq_self (b := item)]
  simp only [Body.strings, mem_append, mem_cons, or_imp, forall_and, forall_eq]
  tauto

theorem RootHeader.coerced_normalised_eq {h : RootHeader T} :
    h.coerced.normalised = h.normalised ↔ ∀ text ∈ h.strings, Valid text := by
  have formats : (h.repoFormat.compatibility.getD []).map coerce =
      h.repoFormat.compatibility.getD [] ↔
        ∀ text ∈ h.repoFormat.compatibility.getD [], Utf8.Valid text := map_eq_self
  rw [← dropEmpty_map_eq] at formats
  simp only [RootHeader.normalised, RootHeader.mk.injEq,
    Format.mk.injEq, RootHeader.strings, Format.strings, mem_cons, forall_eq_or_imp]
  tauto

section Codec

variable {B T : Type}

/-- The header can be written, and passes the gate when it is read. -/
structure Readable (clock : Clock T) (semver : Semver) (h : RootHeader T) : Prop where
  created : ∃ text, clock.print h.createdAt = .ok text
  updated : ∃ text, clock.print h.updatedAt = .ok text
  gate : schemaGate semver h.schemaVersion h.minReaderVersion = .ok ()

variable {clock : Clock T} {h : RootHeader T} {c : Codec B} {b : Body} {raw : B}

theorem headerFields_ok_iff :
    (∃ fields, headerFields clock h = .ok fields) ↔
      (∃ text, clock.print h.createdAt = .ok text) ∧ ∃ text, clock.print h.updatedAt = .ok text := by
  constructor
  · rintro ⟨fields, printed⟩
    obtain ⟨createdAt, created, rest⟩ := bind_ok printed
    obtain ⟨updatedAt, updated, -⟩ := bind_ok rest
    exact ⟨⟨_, created⟩, _, updated⟩
  · rintro ⟨⟨createdAt, created⟩, updatedAt, updated⟩
    exact ⟨_, by rw [headerFields, created, updated]; rfl⟩

/-- A header and a valid body come back as they were, up to the form of nil and empty
values, exactly when the header is readable and every string is UTF-8. -/
theorem roundTrip_eq_self_iff {semver : Semver} (valid : validateBody b = .ok ()) :
    roundTrip c clock semver h b = .ok (h.normalised, b.normalised) ↔
      Readable clock semver h ∧ ∀ text ∈ h.strings ++ b.strings, Valid text := by
  have strings : (∀ text ∈ h.strings ++ b.strings, Utf8.Valid text) ↔
      h.coerced.normalised = h.normalised ∧ b.coerced.normalised = b.normalised := by
    rw [h.coerced_normalised_eq, Body.coerced_normalised_eq valid]
    simp [or_imp, forall_and]
  rw [strings]
  constructor
  · intro same
    obtain ⟨raw, -, rest⟩ := bind_ok same
    obtain ⟨root, wrapped, -⟩ := bind_ok rest
    obtain ⟨-, fields, -, -, printed, -⟩ := wrapHeaderInBody_ok (mapError_ok wrapped)
    obtain ⟨created, updated⟩ := headerFields_ok_iff.mp ⟨fields, printed⟩
    rw [roundTrip_eq semver valid printed] at same
    cases gate : schemaGate semver h.schemaVersion (coerce h.minReaderVersion) with
    | error cause =>
      rw [gate] at same
      cases same
    | ok passed =>
      rw [gate] at same
      have both := Prod.mk.inj (Except.ok.inj same)
      have reader : coerce h.minReaderVersion = h.minReaderVersion :=
        congrArg RootHeader.minReaderVersion both.1
      rw [reader] at gate
      exact ⟨⟨created, updated, gate⟩, both⟩
  · rintro ⟨readable, header, body⟩
    obtain ⟨fields, printed⟩ := headerFields_ok_iff.mpr ⟨readable.created, readable.updated⟩
    have reader : coerce h.minReaderVersion = h.minReaderVersion :=
      congrArg RootHeader.minReaderVersion header
    rw [roundTrip_eq semver valid printed, reader, readable.gate, header, body]
    rfl

theorem marshalBody_ok_iff : (∃ raw, marshalBody c b = .ok raw) ↔ b.Inline ∨ b.Sharded := by
  rw [← validateBody_iff]
  constructor
  · rintro ⟨raw, marshalled⟩
    obtain ⟨⟨⟩, valid, -⟩ := bind_ok marshalled
    exact valid
  · intro valid
    exact ⟨_, by rw [marshalBody, valid]; rfl⟩

/-- `UnmarshalBody` accepts exactly what decodes to one of the two layouts. -/
theorem unmarshalBody_ok_iff :
    (∃ b, unmarshalBody c raw = .ok b) ↔ ∃ value decoded, c.parse raw = .ok value ∧
      intoBody c.fold emptyBody value = .ok decoded ∧ (decoded.Inline ∨ decoded.Sharded) := by
  constructor
  · rintro ⟨b, accepted⟩
    obtain ⟨value, parsed, rest⟩ := bind_ok accepted
    obtain ⟨decoded, read, rest⟩ := bind_ok rest
    obtain ⟨⟨⟩, valid, -⟩ := bind_ok rest
    exact ⟨value, decoded, mapError_ok parsed, mapError_ok read,
      validateBody_iff.mp valid⟩
  · rintro ⟨value, decoded, parsed, read, layout⟩
    have accepted : unmarshalBody c raw = .ok (if decoded.shards = [] ∧ decoded.refs = none then
        { decoded with refs := some ∅ } else decoded) := by
      simp [unmarshalBody, parsed, read, validateBody_iff.mpr layout]
    exact ⟨_, accepted⟩

theorem unmarshalBody_layout (accepted : unmarshalBody c raw = .ok b) : b.Inline ∨ b.Sharded := by
  obtain ⟨value, -, rest⟩ := bind_ok accepted
  obtain ⟨decoded, -, rest⟩ := bind_ok rest
  obtain ⟨⟨⟩, valid, rest⟩ := bind_ok rest
  cases rest
  split
  · next unset =>
      have inline := (validateBody_iff.mp valid).resolve_right fun sharded => sharded.shards unset.1
      exact .inl ⟨inline.shards, inline.untagged⟩
  · exact validateBody_iff.mp valid

/-- The root manifest as a format: what comes back, what the header and the body keep of
each other, and which bodies are read and written. -/
theorem root_manifest_round_trip (c : Codec B) (clock : Clock T) (semver : Semver) :
    (∀ (h : RootHeader T) (b : Body), validateBody b = .ok () →
      (roundTrip c clock semver h b = .ok (h.normalised, b.normalised) ↔
        Readable clock semver h ∧ ∀ text ∈ h.strings ++ b.strings, Utf8.Valid text)) ∧
    (∀ (h : RootHeader T) (body root : B), wrapHeaderInBody c clock h body = .ok root →
      ∃ top, topFields c body = .ok top ∧ (∀ key ∈ headerKeys, top.lookup (name key) = none) ∧
        readRoot c clock semver root =
          (schemaGate semver h.schemaVersion (Utf8.coerce h.minReaderVersion)).map (fun _ =>
            (h.coerced.normalised, c.compact (ofRaw top))) ∧
        unmarshalRaw c (c.compact (ofRaw top)) = .ok (some top)) ∧
    (∀ raw : B, (∃ b, unmarshalBody c raw = .ok b) ↔ ∃ value decoded, c.parse raw = .ok value ∧
      intoBody c.fold emptyBody value = .ok decoded ∧ (decoded.Inline ∨ decoded.Sharded)) ∧
    (∀ (raw : B) (b : Body), unmarshalBody c raw = .ok b → b.Inline ∨ b.Sharded) ∧
    (∀ b : Body, (∃ raw, marshalBody c b = .ok raw) ↔ b.Inline ∨ b.Sharded) := by
  refine ⟨fun h b valid => roundTrip_eq_self_iff valid, ?_, fun raw => unmarshalBody_ok_iff,
    fun raw b accepted => unmarshalBody_layout accepted, fun b => marshalBody_ok_iff⟩
  intro h body root wrapped
  obtain ⟨top, fields, decoded, free, printed, rfl⟩ := wrapHeaderInBody_ok wrapped
  exact ⟨top, decoded, free, readRoot_spliced semver printed free, unmarshalRaw_ofRaw top⟩

end Codec

/-! A first manifest of a repository, and the same with a branch named in no UTF-8. -/

def textClock : Clock Text where
  zero := name "0001-01-01T00:00:00Z"
  print := .ok
  parse := .ok
  parse_print t text printed := by
    cases printed
    rfl

def noSemver : Semver := ⟨fun _ => false, fun _ _ => 0⟩

def firstHeader : RootHeader Text :=
  ⟨2, [], Utf8.encode "t/r", ⟨Utf8.encode "sha1", none⟩, 1, Utf8.encode "01A",
    name "2026-01-01T00:00:00Z", name "2026-01-01T00:00:00Z"⟩

def oneBranch (branch : Bytes) : Body :=
  { emptyBody with
    defaultBranch := Utf8.encode "refs/heads/main"
    refs := some (Finmap.singleton branch (Utf8.encode "1111111111111111111111111111111111111111")) }

theorem oneBranch_valid (branch : Bytes) : validateBody (oneBranch branch) = .ok () :=
  validateBody_iff.mpr (.inl ⟨rfl, rfl⟩)

theorem firstHeader_readable : Readable textClock noSemver firstHeader :=
  ⟨⟨_, rfl⟩, ⟨_, rfl⟩, rfl⟩

theorem root_manifest_round_trip_sample :
    validateBody (oneBranch (Utf8.encode "refs/heads/main")) = .ok () ∧
      roundTrip textCodec textClock noSemver firstHeader (oneBranch (Utf8.encode "refs/heads/main")) =
        .ok (firstHeader.normalised, (oneBranch (Utf8.encode "refs/heads/main")).normalised) := by
  have valid := oneBranch_valid (encode "refs/heads/main")
  refine ⟨valid, ((root_manifest_round_trip textCodec textClock noSemver).1 _ _ valid).mpr
    ⟨firstHeader_readable, ?_⟩⟩
  decide

/-- The branch whose name ends in the byte 0xFF passes every check, and is read back under
the name that ends in U+FFFD. -/
theorem raw_branch_renamed :
    validateBody (oneBranch (Utf8.encode "refs/heads/" ++ [0xFF])) = .ok () ∧
      Readable textClock noSemver firstHeader ∧
      roundTrip textCodec textClock noSemver firstHeader
          (oneBranch (Utf8.encode "refs/heads/" ++ [0xFF])) =
        .ok (firstHeader.normalised,
          (oneBranch (Utf8.encode "refs/heads/" ++ Utf8.replacement)).normalised) ∧
      (oneBranch (Utf8.encode "refs/heads/" ++ Utf8.replacement)).normalised ≠
        (oneBranch (Utf8.encode "refs/heads/" ++ [0xFF])).normalised := by
  have valid := oneBranch_valid (encode "refs/heads/" ++ [0xFF])
  refine ⟨valid, firstHeader_readable, ?_, by decide⟩
  have body : (oneBranch (encode "refs/heads/" ++ [0xFF])).coerced =
      oneBranch (encode "refs/heads/" ++ replacement) := by decide
  have header : firstHeader.coerced = firstHeader := rfl
  rw [roundTrip_eq noSemver valid rfl, body, header]
  rfl

end BucketVcs.Manifest.Wire
