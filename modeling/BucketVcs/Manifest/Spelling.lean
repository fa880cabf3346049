import BucketVcs.Manifest.RoundTrip

/-! The body the writers work with, spelled out as the struct whose JSON is stored. What a
reader decodes is the body `marshalBody` names, so nothing is lost by leaving the bytes out
of the other modules. -/

namespace BucketVcs.Manifest.Wire

open Json List Dict Utf8

def hexByte (byte : UInt8) : Bytes := [hexDigit (byte.toNat / 16), hexDigit (byte.toNat % 16)]

def spellShard (s : Manifest.RefShard) : RefShard :=
  ⟨hexByte s.shard, Utf8.encode s.key, Utf8.encode s.hash, Int64.ofInt s.refCount⟩

def spellPack (p : Manifest.PackEntry) : PackEntry :=
  ⟨Utf8.encode p.packID, Utf8.encode p.packKey, Utf8.encode p.idxKey, Int64.ofInt p.sizeBytes,
    Int64.ofInt p.objectCount, Utf8.encode p.packChecksum, Utf8.encode p.bitmapKey⟩

def spellIndex (r : Manifest.IndexRef) : IndexRef :=
  ⟨Utf8.encode r.key, Utf8.encode r.hash, Int64.ofInt r.sizeBytes⟩

def spellReachability (r : Manifest.ReachabilityRef) : ReachabilityRef :=
  ⟨Utf8.encode r.baseManifest, some (r.deltas.map spellIndex)⟩

def spellIndexes (i : Manifest.Indexes) : Indexes :=
  ⟨i.objectMap.map spellIndex, i.commitGraph.map spellIndex, i.reachability.map spellReachability⟩

def spellBundle (b : Manifest.BundleEntry) : BundleEntry :=
  ⟨Utf8.encode b.id, Utf8.encode b.kind, Utf8.encode b.bundleKey, Utf8.encode b.sidecarKey,
    Utf8.encode b.bundleHash, b.ref, Utf8.encode b.tipOID, b.coversManifestVersion,
    Int64.ofInt b.byteSize, Utf8.encode b.generatedAt⟩

def spellBody (b : Manifest.Body) : Body where
  defaultBranch := b.defaultBranch
  refs := some (Dict.mapValues Utf8.encode b.refs)
  refShards := some (b.refShards.map spellShard)
  refSharding := Utf8.encode b.refSharding
  packs := some (b.packs.map spellPack)
  indexes := spellIndexes b.indexes
  bundles := some (b.bundles.map spellBundle)

/-- What holds of every body the writers make: shard hashes come from the content hash,
counts are machine integers, and a bundle is of a branch a manifest names. -/
structure Spellable (b : Manifest.Body) : Prop where
  hashes : ∀ s ∈ b.refShards, isShardHash (Utf8.encode s.hash) = true
  counts : ∀ s ∈ b.refShards, -2 ^ 63 ≤ s.refCount ∧ s.refCount < 2 ^ 63
  bundles : ∀ entry ∈ b.bundles, Utf8.Valid entry.ref

theorem isHexDigit_hexDigit : ∀ n < 16, isHexDigit (hexDigit n) = true := by decide

theorem hexDigit_lower : ∀ n < 16, ¬ (0x41 ≤ hexDigit n ∧ hexDigit n ≤ 0x5A) := by decide

theorem hexDigit_lt_iff : ∀ m < 16, ∀ n < 16, (hexDigit m < hexDigit n ↔ m < n) ∧
    (hexDigit m = hexDigit n ↔ m = n) := by decide

theorem isShardID_hexByte (byte : UInt8) : isShardID (hexByte byte) = true := by
  have small := byte.toNat_lt
  have high : byte.toNat / 16 < 16 := by omega
  have low : byte.toNat % 16 < 16 := by omega
  simp [isShardID, hexByte, toLower, isHexDigit_hexDigit _ high, isHexDigit_hexDigit _ low,
    hexDigit_lower _ high, hexDigit_lower _ low]

theorem hexByte_lt_iff {left right : UInt8} : hexByte left < hexByte right ↔ left < right := by
  have first := left.toNat_lt
  have second := right.toNat_lt
  obtain ⟨highLt, highEq⟩ := hexDigit_lt_iff (left.toNat / 16) (by omega) (right.toNat / 16) (by omega)
  obtain ⟨lowLt, -⟩ := hexDigit_lt_iff (left.toNat % 16) (by omega) (right.toNat % 16) (by omega)
  rw [hexByte, hexByte, cons_lt_cons_iff, cons_lt_cons_iff, highLt, highEq, lowLt,
    UInt8.lt_iff_toNat_lt]
  simp only [not_lt_nil, and_false, or_false]
  omega

theorem spellShard_wellFormed {s : Manifest.RefShard} (hash : isShardHash (encode s.hash) = true)
    (count : -2 ^ 63 ≤ s.refCount ∧ s.refCount < 2 ^ 63) :
    (spellShard s).WellFormed ↔ s.key ≠ "" ∧ 0 ≤ s.refCount := by
  have key : encode s.key ≠ [] ↔ s.key ≠ "" :=
    not_congr (encode_injective.eq_iff (b := ""))
  have nonneg : 0 ≤ Int64.ofInt s.refCount ↔ 0 ≤ s.refCount := by
    rw [Int64.le_iff_toInt_le, Int64.toInt_ofInt_of_le count.1 count.2]
    exact .rfl
  constructor
  · intro fine
    exact ⟨key.mp fine.key, nonneg.mp fine.count⟩
  · rintro ⟨named, counted⟩
    exact ⟨isShardID_hexByte s.shard, hash, key.mpr named, nonneg.mpr counted⟩

variable {b : Manifest.Body}

theorem validateBody_spellBody (spellable : Spellable b) :
    validateBody (spellBody b) = .ok () ↔ Manifest.validateBody b = .ok () := by
  have shards : (spellBody b).shards = b.refShards.map spellShard := rfl
  have refs : (spellBody b).refs = some (mapValues encode b.refs) := rfl
  have sharding : (spellBody b).refSharding = encode b.refSharding := rfl
  have order : ∀ left right, (spellShard left).shard < (spellShard right).shard ↔
      left.shard < right.shard := fun _ _ => hexByte_lt_iff
  have tag (text : String) : encode b.refSharding = encode text ↔ b.refSharding = text :=
    encode_injective.eq_iff
  have untagged : encode b.refSharding = [] ↔ b.refSharding = "" := tag ""
  have fine : (∀ s ∈ b.refShards.map spellShard, s.WellFormed) ↔
      ∀ s ∈ b.refShards, s.key ≠ "" ∧ 0 ≤ s.refCount := by
    rw [List.forall_mem_map]
    exact forall₂_congr fun s member =>
      spellShard_wellFormed (spellable.hashes s member) (spellable.counts s member)
  have hashes : ((b.refShards.map spellShard).map RefShard.hash).Nodup ↔
      (b.refShards.map Manifest.RefShard.hash).Nodup := by
    rw [List.map_map, ← nodup_map_iff encode_injective, List.map_map]
    exact Iff.rfl
  rw [validateBody_iff, Manifest.validateBody_iff, Body.inline_iff, Body.sharded_iff,
    validateRefShards_iff]
  simp only [shards, refs, sharding, fine, hashes, pairwise_map, order, Option.getD_some,
    mapValues_eq_empty, untagged, tag "hash_v1", map_eq_nil_iff, ne_eq]

/-! What is read back. -/

theorem coerce_encode (text : String) : coerce (encode text) = encode text :=
  valid_encode text

theorem coerced_spellShard (s : Manifest.RefShard) : (spellShard s).coerced = spellShard s := by
  simp only [RefShard.coerced, spellShard, coerce_encode,
    show coerce (hexByte s.shard) = hexByte s.shard from valid_shardID (isShardID_hexByte s.shard)]

theorem coerced_spellPack (p : Manifest.PackEntry) : (spellPack p).coerced = spellPack p := by
  simp only [PackEntry.coerced, spellPack, coerce_encode]

theorem coerced_spellIndex (r : Manifest.IndexRef) : (spellIndex r).coerced = spellIndex r := by
  simp only [IndexRef.coerced, spellIndex, coerce_encode]

theorem coerced_spellReachability (r : Manifest.ReachabilityRef) :
    (spellReachability r).coerced = spellReachability r := by
  simp [ReachabilityRef.coerced, spellReachability, coerce_encode, coerced_spellIndex]

theorem coerced_spellIndexes (i : Manifest.Indexes) : (spellIndexes i).coerced = spellIndexes i := by
  simp [Indexes.coerced, spellIndexes, Function.comp_def, coerced_spellIndex,
    coerced_spellReachability]

theorem coerced_spellBundle {b : Manifest.BundleEntry} (ref : Valid b.ref) :
    (spellBundle b).coerced = spellBundle b := by
  simp only [BundleEntry.coerced, spellBundle, coerce_encode, show coerce b.ref = b.ref from ref]

theorem rewritten_mapValues (refs : RefMap) :
    rewritten coerce (mapValues encode refs) =
      mapValues encode (decodeRefs (encodeRefs refs)) := by
  rw [decodeRefs, mapValues_insertAll, rewritten, entries_mapValues, encodeRefs, List.map_map,
    List.map_map]
  simp only [Function.comp_def, coerce_encode]

theorem coerced_spellBody (spellable : Spellable b) :
    (spellBody b).coerced = spellBody { b with
      defaultBranch := coerce b.defaultBranch
      refs := decodeRefs (encodeRefs b.refs) } := by
  have bundles : (b.bundles.map spellBundle).map .coerced = b.bundles.map spellBundle := by
    rw [List.map_map]
    exact map_congr_left fun entry member => coerced_spellBundle (spellable.bundles entry member)
  have shards : (b.refShards.map spellShard).map .coerced = b.refShards.map spellShard := by
    rw [List.map_map]
    exact map_congr_left fun s _ => coerced_spellShard s
  have packs : (b.packs.map spellPack).map .coerced = b.packs.map spellPack := by
    rw [List.map_map]
    exact map_congr_left fun p _ => coerced_spellPack p
  simp only [Body.coerced, spellBody, Option.map_some, rewritten_mapValues, shards, packs, bundles,
    coerce_encode, coerced_spellIndexes]

/-- What the writers store and every reader gets back: `marshalBody` names exactly the body
that is decoded from the bytes. -/
theorem marshalBody_spelled {B : Type} (c : Codec B) {b : Manifest.Body} (spellable : Spellable b) :
    match Manifest.marshalBody b with
    | .ok stored => ∃ raw, marshalBody c (spellBody b) = .ok raw ∧
        unmarshalBody c raw = .ok (spellBody stored).normalised
    | .error _ => ∃ cause, marshalBody c (spellBody b) = .error cause := by
  split
  · rename_i stored marshalled
    obtain ⟨valid, -, rfl⟩ := marshalBody_ok marshalled
    have checked := (validateBody_spellBody spellable).mpr valid
    refine ⟨c.indent (ofBody (spellBody b).filled), ?_, ?_⟩
    · rw [marshalBody, checked]
      rfl
    · rw [← coerced_spellBody spellable]
      exact unmarshalBody_of_fields checked (c.parse_indent _) fun _ field into old =>
        intoField_ofFields c.fold
          (show (bodyFields (spellBody b).filled).map Prod.fst = bodyNames from rfl) (by decide)
          field into old
  · rename_i refused
    cases outcome : validateBody (spellBody b) with
    | ok =>
      rw [marshalBody_of_valid ((validateBody_spellBody spellable).mp outcome)] at refused
      cases refused
    | error cause => exact ⟨cause, by rw [marshalBody, outcome]; rfl⟩

def smallBody : Manifest.Body where
  defaultBranch := headRef 0x6D
  refs := Finmap.singleton (headRef 0x6D) objectOne
  refShards := []
  refSharding := ""
  packs := [⟨"p", "packs/p.pack", "packs/p.idx", 9, 1, "c", ""⟩]
  indexes := ⟨some ⟨"maps/m", "h", 5⟩, none, none⟩
  bundles := [⟨"b", "full", "bundles/b", "bundles/b.json", "h", headRef 0x6D, objectOne, 1, 7, "now"⟩]

theorem smallBody_spelled : ∃ raw, marshalBody textCodec (spellBody smallBody) = .ok raw ∧
    unmarshalBody textCodec raw = .ok (spellBody smallBody).normalised := by
  have spelled := marshalBody_spelled textCodec (b := smallBody)
    ⟨nofun, nofun, by decide⟩
  have stored : Manifest.marshalBody smallBody = .ok smallBody := by decide
  rwa [stored] at spelled

end BucketVcs.Manifest.Wire
