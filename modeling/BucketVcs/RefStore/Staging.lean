import BucketVcs.Lib.Codes
import BucketVcs.RefStore

/-! Staging over a layout whose refs are known: which shard objects are written, which entries
the next manifest gets, and what `Lookup` answers before and after. -/

namespace BucketVcs.RefStore

open Manifest List

variable {h : Hashing} {objects : Objects} {shards : List RefShard} {target : RefMap}

/-- The refs a body stands for, in either layout. Names read back from JSON are UTF-8. -/
structure Holds (h : Hashing) (objects : Objects) (body : Body) (refs : RefMap) : Prop where
  valid : validateBody body = .ok ()
  inline : body.refShards = [] → body.refs = refs
  lays : body.refShards ≠ [] → Lays h objects body.refShards refs
  names : ∀ name ∈ refs, Utf8.Valid name

variable {body : Body} {refs : RefMap} {updates : Updates} {write : ShardWrite}
  {writes : List ShardWrite} {next : List RefShard}

theorem Holds.list (holds : Holds h objects body refs) :
    RefStore.list h objects body = .ok refs := by
  by_cases inline : body.refShards = []
  · rw [list_inline inline, holds.inline inline]
  · exact (holds.lays inline).list_body holds.valid inline

theorem lookup_sharded (sharded : body.refShards ≠ [])
    (supported : isSupportedRefSharding body.refSharding = true) (name : RefName) :
    lookup h objects body name =
      (loadShard h objects body.refShards (h.shardKey name)).map (Finmap.lookup name) := by
  unfold lookup loadShard existingShard
  rw [if_neg sharded, if_pos supported]
  cases body.refShards.find? fun ref => ref.shard = h.shardKey name with
  | none => rfl
  | some ref => cases fetchShard h objects ref <;> rfl

theorem Holds.lookup (holds : Holds h objects body refs) (name : RefName) :
    RefStore.lookup h objects body name = .ok (refs.lookup name) := by
  by_cases inline : body.refShards = []
  · rw [← holds.inline inline]
    exact if_pos inline
  · rw [lookup_sharded inline (supported_of_valid holds.valid inline),
      (holds.lays inline).loadShard]
    simp [Except.map, lookup_shardPart]

/-! The stage of a sharded store, computed from the refs its layout stands for. -/

def rewriteShard (h : Hashing) (shards : List RefShard) (next : RefMap) (shard : UInt8) :
    Option (RefShard × Option ShardWrite) :=
  if shardPart h shard next = ∅ then none
  else some (writeShard h shards shard (shardPart h shard next))

theorem Lays.stageShard (lays : Lays h objects shards target) (updates : Updates) (shard : UInt8) :
    stageShard h objects shards updates shard =
      .ok (rewriteShard h shards (applyUpdates updates target) shard) := by
  unfold RefStore.stageShard rewriteShard
  rw [lays.loadShard, shardPart_applyUpdates]
  simp only [bind, Except.bind]
  split <;> rfl

def untouchedShards (h : Hashing) (shards : List RefShard) (updates : Updates) : List RefShard :=
  shards.filter fun ref => ref.shard ∉ changedShards h updates

def rewrittenShards (h : Hashing) (shards : List RefShard) (updates : Updates) (next : RefMap) :
    List (RefShard × Option ShardWrite) :=
  (changedShards h updates).filterMap (rewriteShard h shards next)

theorem Lays.stageSharded (lays : Lays h objects shards target) (some : updates ≠ []) :
    stageSharded h objects shards updates =
      let rewritten := rewrittenShards h shards updates (applyUpdates updates target)
      .ok (.sharded (rewritten.filterMap Prod.snd)
        ((rewritten.map Prod.fst ++ untouchedShards h shards updates).insertionSort
          fun left right => left.shard ≤ right.shard)) := by
  have mapped : (changedShards h updates).mapM (RefStore.stageShard h objects shards updates) =
      .ok ((changedShards h updates).map (rewriteShard h shards (applyUpdates updates target))) :=
    Lists.mapM_ok fun shard _ => lays.stageShard updates shard
  unfold RefStore.stageSharded
  simp only [if_neg some, mapped, bind, Except.bind, filterMap_map]
  rfl

theorem Lays.stages (lays : Lays h objects shards target) (updates : Updates) :
    ∃ writes next, RefStore.stageSharded h objects shards updates = .ok (.sharded writes next) := by
  by_cases some : updates = []
  · exact ⟨[], shards, if_pos some⟩
  · exact ⟨_, _, lays.stageSharded some⟩

theorem Holds.stage (holds : Holds h objects body refs) (updates : Updates) :
    (body.refShards = [] ∧
      RefStore.stage h objects body updates = .ok (.inline (applyUpdates updates refs))) ∨
    (body.refShards ≠ [] ∧ ∃ writes next,
      RefStore.stage h objects body updates = .ok (.sharded writes next) ∧
      RefStore.stageSharded h objects body.refShards updates = .ok (.sharded writes next)) := by
  by_cases inline : body.refShards = []
  · refine .inl ⟨inline, ?_⟩
    rw [← holds.inline inline]
    exact if_pos inline
  · obtain ⟨writes, next, staged⟩ := (holds.lays inline).stages updates
    have chosen : RefStore.stage h objects body updates =
        RefStore.stageSharded h objects body.refShards updates := by
      unfold RefStore.stage
      rw [if_neg inline, if_pos (supported_of_valid holds.valid inline)]
    exact .inr ⟨inline, writes, next, chosen.trans staged, staged⟩

theorem mem_rewrittenShards {next : RefMap} {entry : RefShard × Option ShardWrite} :
    entry ∈ rewrittenShards h shards updates next ↔
      ∃ shard ∈ changedShards h updates, shardPart h shard next ≠ ∅ ∧
        entry = writeShard h shards shard (shardPart h shard next) := by
  simp only [rewrittenShards, mem_filterMap, rewriteShard]
  constructor
  · rintro ⟨shard, changed, made⟩
    split at made
    · cases made
    · next nonempty => exact ⟨shard, changed, nonempty, (Option.some.inj made).symm⟩
  · rintro ⟨shard, changed, nonempty, rfl⟩
    exact ⟨shard, changed, if_neg nonempty⟩

@[simp]
theorem writeShard_refCount (shard : UInt8) (refs : RefMap) :
    (writeShard h shards shard refs).1.refCount = refs.keys.card := by
  unfold writeShard
  cases existingShard shards shard with
  | none => rfl
  | some ref => by_cases same : ref.hash = h.contentHash (encodeRefs refs) <;> simp [same]

theorem writeShard_put {shard : UInt8} :
    (writeShard h shards shard refs).2 = some write ↔
      (∀ ref, existingShard shards shard = some ref → ref.hash ≠ h.contentHash (encodeRefs refs)) ∧
        write = ⟨shard, refShardKey (h.contentHash (encodeRefs refs)),
          h.contentHash (encodeRefs refs), encodeRefs refs⟩ := by
  unfold writeShard
  cases existingShard shards shard with
  | none => simp [eq_comm]
  | some ref =>
    by_cases same : ref.hash = h.contentHash (encodeRefs refs) <;> simp [same, eq_comm]

def shardWrite (h : Hashing) (next : RefMap) (shard : UInt8) : ShardWrite :=
  let contents := encodeRefs (shardPart h shard next)
  ⟨shard, refShardKey (h.contentHash contents), h.contentHash contents, contents⟩

/-- A shard is written when the update names one of its refs, leaves it non-empty and changes
its content. -/
structure Writes (h : Hashing) (shards : List RefShard) (updates : Updates) (next : RefMap)
    (shard : UInt8) : Prop where
  changed : shard ∈ changedShards h updates
  nonempty : shardPart h shard next ≠ ∅
  fresh : ∀ ref, existingShard shards shard = some ref →
    ref.hash ≠ h.contentHash (encodeRefs (shardPart h shard next))

section

variable (lays : Lays h objects shards target)

include lays

theorem Lays.mem_writes
    (staged : RefStore.stageSharded h objects shards updates = .ok (.sharded writes next)) :
    write ∈ writes ↔ ∃ shard, Writes h shards updates (applyUpdates updates target) shard ∧
      write = shardWrite h (applyUpdates updates target) shard := by
  by_cases some : updates = []
  · subst some
    cases staged
    simp only [not_mem_nil, false_iff]
    rintro ⟨shard, ⟨changed, -, -⟩, -⟩
    cases changed
  · rw [lays.stageSharded some] at staged
    cases staged
    simp only [mem_filterMap]
    constructor
    · rintro ⟨entry, member, put⟩
      obtain ⟨shard, changed, nonempty, rfl⟩ := mem_rewrittenShards.mp member
      obtain ⟨fresh, rfl⟩ := writeShard_put.mp put
      exact ⟨shard, ⟨changed, nonempty, fresh⟩, rfl⟩
    · rintro ⟨shard, ⟨changed, nonempty, fresh⟩, rfl⟩
      exact ⟨_, mem_rewrittenShards.mpr ⟨shard, changed, nonempty, rfl⟩,
        writeShard_put.mpr ⟨fresh, rfl⟩⟩

theorem Lays.stage_lookup
    (staged : RefStore.stageSharded h objects shards updates = .ok (.sharded writes next))
    (name : RefName) :
    (Writes h shards updates (applyUpdates updates target) (h.shardKey name) ∧
      Stage.lookup h name (.sharded writes next) = .ok ((decodeRefs (encodeRefs
        (shardPart h (h.shardKey name) (applyUpdates updates target)))).lookup name)) ∨
    (¬ Writes h shards updates (applyUpdates updates target) (h.shardKey name) ∧
      Stage.lookup h name (.sharded writes next) = .error .notInStage) := by
  simp only [Stage.lookup]
  cases found : writes.find? fun write => write.shard = h.shardKey name with
  | none =>
    refine .inr ⟨fun written => ?_, rfl⟩
    have member := (lays.mem_writes staged).mpr ⟨_, written, rfl⟩
    simpa [shardWrite] using List.find?_eq_none.mp found _ member
  | some write =>
    obtain ⟨shard, written, rfl⟩ :=
      (lays.mem_writes staged).mp (List.mem_of_find?_eq_some found)
    have same : shard = h.shardKey name := by
      have chosen := List.find?_some found
      exact of_decide_eq_true chosen
    subst same
    exact .inl ⟨written, rfl⟩

/-! The entries of a layout pass the manifest's own check. -/

section

variable (addressed : Addressed h objects)
include addressed

theorem Lays.key_ne_empty {ref : RefShard} (member : ref ∈ shards) : ref.key ≠ "" := by
  obtain ⟨contents, held, -⟩ := lays.resolves ref member
  rw [(addressed _ _ held).1]
  exact refShardKey_ne_empty _

theorem Lays.hashes_nodup : (shards.map RefShard.hash).Nodup := by
  apply List.Nodup.map_on _ (List.Nodup.of_map _ lays.distinct)
  intro left leftMember right rightMember same
  apply inj_on_of_nodup_map lays.distinct leftMember rightMember
  obtain ⟨contents, held, hashed, part⟩ := fetchShard_ok (lays.fetched left leftMember)
  obtain ⟨others, -, hashed', part'⟩ := fetchShard_ok (lays.fetched right rightMember)
  have equal : contents = others := h.contentHash_injective (by rw [hashed, hashed', same])
  obtain ⟨entry, inside⟩ := exists_mem_of_ne_nil _ (addressed _ _ held).2
  have present : entry.1 ∈ decodeRefs contents :=
    Dict.mem_insertAll.mpr (.inl (List.mem_map_of_mem inside))
  calc
    left.shard = h.shardKey entry.1 := (mem_shardPart.mp (part ▸ present)).1.symm
    _ = right.shard := (mem_shardPart.mp (part' ▸ equal ▸ present)).1

theorem Lays.validateRefShards (counted : ∀ ref ∈ shards, 0 ≤ ref.refCount)
    (ascending : shards.Pairwise fun left right => left.shard < right.shard) :
    validateRefShards shards = .ok () :=
  validateRefShards_iff.mpr ⟨fun ref member => ⟨lays.key_ne_empty addressed member,
    counted ref member⟩, ascending, lays.hashes_nodup addressed⟩

end

end

theorem ascending_insertionSort {α : Type} (id : α → UInt8) {entries : List α}
    (distinct : (entries.map id).Nodup) :
    (entries.insertionSort fun left right => id left ≤ id right).Pairwise
      fun left right => id left < id right := by
  have sorted := pairwise_insertionSort (fun left right => id left ≤ id right) entries
  have different := ((perm_insertionSort (fun left right => id left ≤ id right)
    entries).map id).nodup_iff.mpr distinct
  apply (sorted.and (pairwise_map.mp different)).imp
  intro left right both
  exact UInt8.lt_of_le_of_ne both.1 both.2

theorem Lays.staged_entries (lays : Lays h objects shards target)
    (staged : RefStore.stageSharded h objects shards updates = .ok (.sharded writes next))
    (valid : Manifest.validateRefShards shards = .ok ())
    (distinct : (next.map RefShard.shard).Nodup) :
    (∀ ref ∈ next, 0 ≤ ref.refCount) ∧
      next.Pairwise (fun left right => left.shard < right.shard) := by
  obtain ⟨sound, ascending, -⟩ := validateRefShards_iff.mp valid
  by_cases some : updates = []
  · subst some
    cases staged
    exact ⟨fun ref member => (sound ref member).2, ascending⟩
  · rw [lays.stageSharded some] at staged
    cases staged
    have sorted := perm_insertionSort (fun left right : RefShard => left.shard ≤ right.shard)
      ((rewrittenShards h shards updates (applyUpdates updates target)).map Prod.fst ++
        untouchedShards h shards updates)
    refine ⟨?_, ascending_insertionSort RefShard.shard
      ((sorted.map RefShard.shard).nodup_iff.mp distinct)⟩
    intro ref member
    rw [mem_insertionSort, mem_append, List.mem_map] at member
    rcases member with ⟨entry, rewritten, rfl⟩ | untouched
    · obtain ⟨shard, -, -, rfl⟩ := mem_rewrittenShards.mp rewritten
      rw [writeShard_refCount]
      exact Int.natCast_nonneg _
    · exact (sound ref (mem_of_mem_filter untouched)).2

theorem reshard_counted (refs : RefMap) : ∀ ref ∈ (reshard h refs).2, 0 ≤ ref.refCount := by
  intro ref member
  obtain ⟨shard, -, rfl⟩ := List.mem_map.mp member
  exact Int.natCast_nonneg _

theorem reshard_ascending (refs : RefMap) :
    (reshard h refs).2.Pairwise fun left right => left.shard < right.shard := by
  apply pairwise_map.mpr
  exact ascending_insertionSort (fun shard => shard) (by simp [nodup_dedup])

def spelledHashing : Hashing where
  shardKey name := name.getLast?.getD 0
  contentHash := (Codes.list (Codes.pair (Codes.list Codes.byte) Codes.string)).text
  contentHash_injective := Codes.Code.text_injective _

end BucketVcs.RefStore
