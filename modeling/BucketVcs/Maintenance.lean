import BucketVcs.RefStore

/-! The bodies the maintenance writers put over the root they replace. -/

namespace BucketVcs.Maintenance

open Manifest

inductive Refusal where
  | body (cause : BodyError)
  | staleManifest
  | concurrentMutation
  | packCountChanged (want got : Nat)
  | bundleKind (kind : String)
  | nothingToBackfill
  deriving DecidableEq, Repr

def checked {α : Type} : Except BodyError α → Except Refusal α
  | .ok value => .ok value
  | .error cause => .error (.body cause)

def snapshotDeltas (m0 : Body) : List String :=
  match m0.indexes.reachability with
  | none => []
  | some chain => chain.deltas.map IndexRef.hash

/-- Drops the deltas a run consumed; `advance` moves the base even if it consumed none. -/
def trimConsumedByHash (prev : Option ReachabilityRef) (consumed : List String) (base : String)
    (advance : Bool) : Option ReachabilityRef :=
  match prev, consumed with
  | none, [] => none
  | some chain, [] => some (if advance then { chain with baseManifest := base } else chain)
  | none, _ :: _ => some ⟨base, []⟩
  | some chain, _ :: _ => some ⟨base, chain.deltas.filter fun delta => delta.hash ∉ consumed⟩

structure MergeInput where
  p0Keys : List Key
  newPack : PackEntry
  newObjectMap : IndexRef
  newCommitGraph : IndexRef
  consumedHashes : List String
  baseManifest : String

/-- The repack's merge. The ref fields are copied one by one and the shard fields are not
among them. -/
def buildMergedBody (prev : Body) (input : MergeInput) : Body :=
  { defaultBranch := prev.defaultBranch
    refs := prev.refs
    refShards := []
    refSharding := ""
    packs := input.newPack :: prev.packs.filter fun pack => pack.packKey ∉ input.p0Keys
    indexes :=
      { objectMap := some input.newObjectMap
        commitGraph := some input.newCommitGraph
        reachability :=
          trimConsumedByHash prev.indexes.reachability input.consumedHashes input.baseManifest true }
    bundles := prev.bundles }

structure CompactInput where
  newCommitGraph : IndexRef
  consumedHashes : List String
  baseManifest : String

def buildCompactOnlyBody (prev : Body) (input : CompactInput) : Body :=
  { defaultBranch := prev.defaultBranch
    refs := prev.refs
    refShards := []
    refSharding := ""
    packs := prev.packs
    indexes :=
      { objectMap := prev.indexes.objectMap
        commitGraph := some input.newCommitGraph
        reachability :=
          trimConsumedByHash prev.indexes.reachability input.consumedHashes input.baseManifest
            false }
    bundles := prev.bundles }

def fullDefault : String := "full_default"

def mergeBundleEntry (body : Body) (fresh : BundleEntry) : Except Refusal Body :=
  if fresh.kind ≠ fullDefault then .error (.bundleKind fresh.kind)
  else .ok { body with
    bundles := body.bundles.filter (fun entry => entry.kind ≠ fullDefault) ++ [fresh] }

/-- `trailer` is the checksum read from a pack object, if the read succeeds. -/
def backfillPack (trailer : Key → Option String) (pack : PackEntry) : PackEntry :=
  if pack.packChecksum ≠ "" then pack
  else match trailer pack.packKey with
    | some sum => { pack with packChecksum := sum }
    | none => pack

def fillsAny (trailer : Key → Option String) (packs : List PackEntry) : Bool :=
  packs.any fun pack => pack.packChecksum = "" && (trailer pack.packKey).isSome

def backfillBody (trailer : Key → Option String) (body : Body) : Except Refusal Body :=
  if fillsAny trailer body.packs then
    .ok { body with packs := body.packs.map (backfillPack trailer) }
  else .error .nothingToBackfill

def reshardBody (h : RefStore.Hashing) (body : Body) : Body :=
  { body with
    refs := ∅
    refShards := (RefStore.reshard h body.refs).2
    refSharding := "hash_v1" }

end BucketVcs.Maintenance
