import BucketVcs.Lib.Lists
import BucketVcs.Lib.Results

/-! The ref layout of a manifest body: refs in the body itself, or in shards. The checks are the
same however shard ids, hashes and counts are spelled. -/

namespace BucketVcs.Manifest

open List Results

/-- `I` are shard ids, `T` texts and `N` counts. -/
inductive LayoutError (I T N : Type) where
  | hybrid
  | shardingMissing
  | shardingUnsupported (tag : T)
  | shardingWithoutShards (tag : T)
  | shardID (index : Nat) (shard : I)
  | shardHash (index : Nat) (hash : T)
  | shardKeyEmpty (index : Nat)
  | shardCountNegative (index : Nat) (count : N)
  | shardDuplicate (index : Nat) (shard : I)
  | shardNotAscending (index : Nat) (shard previous : I)
  | shardHashDuplicate (index : Nat) (hash : T) (first : Nat)
  deriving DecidableEq, Repr

/-- How entries of `ref_shards` are spelled, and the checks on an entry alone. -/
structure ShardFormat (S I T N : Type) where
  shard : S → I
  hash : S → T
  untagged : T
  isSupported : T → Bool
  check : Nat → S → Except (LayoutError I T N) Unit

variable {S I T N : Type} [DecidableEq I] [LT I] [DecidableLT I]

def checkShardOrder (index : Nat) (shard : I) : Option I → Except (LayoutError I T N) Unit
  | none => .ok ()
  | some previous =>
    if shard = previous then .error (.shardDuplicate index shard)
    else if shard < previous then .error (.shardNotAscending index shard previous)
    else .ok ()

section Order

variable (connex : ∀ {a b : I}, a ≠ b → ¬ a < b → b < a) (asymm : ∀ {a b : I}, a < b → ¬ b < a)

include connex asymm

theorem checkShardOrder_iff (index : Nat) {shard : I} {previous : Option I} :
    (checkShardOrder index shard previous : Except (LayoutError I T N) Unit) = .ok () ↔
      ∀ p, previous = some p → p < shard := by
  cases previous with
  | none => simp [checkShardOrder]
  | some p =>
    simp only [checkShardOrder]
    by_cases same : shard = p
    · have irrefl : ¬ p < p := fun below => asymm below below
      simp [same, irrefl]
    · by_cases below : shard < p
      · simp [same, below, asymm below]
      · simp [same, below, connex same below]

end Order

variable [DecidableEq T]

/-- The loop of `validateRefShards`: `previous` is the last shard id, `seen` the hashes
with the index each stood at. -/
def validateRefShardsFrom (format : ShardFormat S I T N) (index : Nat) (previous : Option I)
    (seen : List (T × Nat)) : List S → Except (LayoutError I T N) Unit
  | [] => .ok ()
  | s :: rest => do
    format.check index s
    checkShardOrder index (format.shard s) previous
    match seen.lookup (format.hash s) with
    | some first => .error (.shardHashDuplicate index (format.hash s) first)
    | none =>
      validateRefShardsFrom format (index + 1) (some (format.shard s))
        ((format.hash s, index) :: seen) rest

/-- `validateBody`; `refs` says whether the body has refs of its own. -/
def validateLayout (format : ShardFormat S I T N) (refs : Bool) (shards : List S) (sharding : T) :
    Except (LayoutError I T N) Unit :=
  if refs ∧ shards ≠ [] then .error .hybrid
  else if shards ≠ [] then
    if sharding = format.untagged then .error .shardingMissing
    else if ¬ format.isSupported sharding then .error (.shardingUnsupported sharding)
    else validateRefShardsFrom format 0 none [] shards
  else if sharding ≠ format.untagged then .error (.shardingWithoutShards sharding)
  else .ok ()

variable {format : ShardFormat S I T N}

theorem validateRefShardsFrom_iff (format : ShardFormat S I T N) (fine : S → Prop)
    (trans : ∀ {a b c : I}, a < b → b < c → a < c)
    (connex : ∀ {a b : I}, a ≠ b → ¬ a < b → b < a) (asymm : ∀ {a b : I}, a < b → ¬ b < a)
    (checks : ∀ index s, format.check index s = .ok () ↔ fine s) (index : Nat)
    (previous : Option I) (seen : List (T × Nat)) (shards : List S) :
    validateRefShardsFrom format index previous seen shards = .ok () ↔
      (∀ s ∈ shards, fine s) ∧ (∀ s ∈ shards, ∀ p, previous = some p → p < format.shard s) ∧
      (∀ s ∈ shards, format.hash s ∉ seen.map Prod.fst) ∧
      shards.Pairwise (fun left right => format.shard left < format.shard right) ∧
      (shards.map format.hash).Nodup := by
  induction shards generalizing index previous seen with
  | nil => simp [validateRefShardsFrom]
  | cons s rest ih =>
    have step : validateRefShardsFrom format index previous seen (s :: rest) = .ok () ↔
        fine s ∧ (∀ p, previous = some p → p < format.shard s) ∧
        format.hash s ∉ seen.map Prod.fst ∧
        validateRefShardsFrom format (index + 1) (some (format.shard s))
          ((format.hash s, index) :: seen) rest = .ok () := by
      rw [validateRefShardsFrom, bind_ok_iff, ← Lists.lookup_none_iff, ← checks index,
        ← checkShardOrder_iff connex asymm index (T := T) (N := N)]
      constructor
      · rintro ⟨⟨⟩, checked, ordered⟩
        obtain ⟨⟨⟩, ordered, later⟩ := bind_ok ordered
        cases found : seen.lookup (format.hash s) with
        | some first => simp [found] at later
        | none => exact ⟨checked, ordered, rfl, by simpa [found] using later⟩
      · rintro ⟨checked, ordered, fresh, later⟩
        exact ⟨(), checked, by simp [ordered, fresh, later]⟩
    rw [step, ih, pairwise_cons]
    grind

theorem validateLayout_iff {refs : Bool} {shards : List S} {sharding : T}
    (unsupported : format.isSupported format.untagged = false) :
    validateLayout format refs shards sharding = .ok () ↔
      (shards = [] ∧ sharding = format.untagged) ∨
      (shards ≠ [] ∧ refs = false ∧ format.isSupported sharding = true ∧
        validateRefShardsFrom format 0 none [] shards = .ok ()) := by
  unfold validateLayout
  by_cases inline : shards = []
  · by_cases untagged : sharding = format.untagged <;> simp [inline, untagged]
  · cases refs with
    | true => simp [inline]
    | false =>
      by_cases untagged : sharding = format.untagged
      · simp [inline, untagged, unsupported]
      · by_cases tagged : format.isSupported sharding = true <;> simp [inline, untagged, tagged]

end BucketVcs.Manifest
