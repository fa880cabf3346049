import BucketVcs.Importer
import BucketVcs.Maintenance
import BucketVcs.RefStore.Staging

/-! Publishing one stage after another. From either layout the refs listed after each update
are those the inline store computes, and they stay so as long as the names set are UTF-8. -/

namespace BucketVcs.Importer

open Manifest RefStore Maintenance Results List Finmap

/-- A repository as its ref store sees it: the shard objects and the current body. -/
structure Snapshot where
  objects : Objects
  body : Body

def publishBody (current : Body) (stage : Stage) (made : Repack) (patch : Patch) : Body :=
  if emptyTarget stage then emptyBody current else draftBody current stage made patch

def republish (h : Hashing) (made : Repack) (patch : Patch) (s : Snapshot) (updates : Updates) :
    Except Error Snapshot := do
  let stage ← (RefStore.stage h s.objects s.body updates).mapError .refStore
  let body ← (marshalBody (publishBody s.body stage made patch)).mapError .body
  .ok ⟨putShards (stageWrites stage) s.objects, body⟩

def republishAll (h : Hashing) (made : Repack) (patch : Patch) (s : Snapshot) :
    List Updates → Except Error Snapshot
  | [] => .ok s
  | updates :: rest => do
    let next ← republish h made patch s updates
    republishAll h made patch next rest

/-- `maintenance.Reshard` with no other writer: a sharded or empty repository is left alone. -/
def resharded (h : Hashing) (s : Snapshot) : Except BodyError Snapshot := do
  let body ← unmarshalBody s.body
  if body.refShards ≠ [] ∨ body.refs = ∅ then .ok s
  else
    let stored ← marshalBody (reshardBody h body)
    .ok ⟨putShards (RefStore.reshard h body.refs).1 s.objects, stored⟩

def inlineRefs (refs : RefMap) (sequence : List Updates) : RefMap :=
  sequence.foldl (fun refs updates => applyUpdates updates refs) refs

/-- What a reader of the published body finds: exactly `refs`, by list and by lookup, in a body
the manifest accepts whose refs lie in their shards. -/
structure Agrees (h : Hashing) (s : Snapshot) (refs : RefMap) : Prop where
  listed : RefStore.list h s.objects s.body = .ok refs
  looked : ∀ name, RefStore.lookup h s.objects s.body name = .ok (refs.lookup name)
  valid : validateBody s.body = .ok ()
  ascending : s.body.refShards.Pairwise fun left right => left.shard < right.shard
  hashes : (s.body.refShards.map RefShard.hash).Nodup
  placed : ∀ ref ∈ s.body.refShards, ∃ part, fetchShard h s.objects ref = .ok part ∧
    ∀ name ∈ part, h.shardKey name = ref.shard

variable {h : Hashing} {made : Repack} {patch : Patch} {s : Snapshot} {refs : RefMap}

theorem agrees_of_holds (holds : Holds h s.objects s.body refs) : Agrees h s refs := by
  obtain ⟨-, ascending, hashes⟩ :=
    validateRefShards_iff.mp (validateRefShards_of_body holds.valid)
  refine ⟨holds.list, holds.lookup, holds.valid, ascending, hashes, ?_⟩
  intro ref member
  refine ⟨_, (holds.lays (ne_nil_of_mem member)).fetched ref member, ?_⟩
  intro name inside
  exact (mem_shardPart.mp inside).1

/-! One update. -/

variable {objects : Objects} {b : Body} {updates : Updates} {stage : Stage} {out : RefMap}

theorem holds_stored_inline (inline : b.refShards = []) (untagged : b.refSharding = "")
    (names : ∀ name ∈ b.refs, Utf8.Valid name) :
    ∃ stored, marshalBody b = .ok stored ∧ Holds h objects stored b.refs := by
  have valid := validateBody_iff.mpr (.inl ⟨inline, untagged⟩)
  have marshalled := marshalBody_of_valid valid
  refine ⟨_, marshalled, (marshalBody_ok marshalled).2.1, ?_, ?_, names⟩
  · intro _
    exact decodeRefs_encodeRefs names
  · intro sharded
    exact absurd inline sharded

theorem holds_stored_sharded (sharded : b.refShards ≠ []) (empty : b.refs = ∅)
    (tagged : b.refSharding = "hash_v1") (checked : validateRefShards b.refShards = .ok ())
    (lays : Lays h objects b.refShards refs) (names : ∀ name ∈ refs, Utf8.Valid name) :
    ∃ stored, marshalBody b = .ok stored ∧ Holds h objects stored refs := by
  have valid := validateBody_iff.mpr (.inr ⟨sharded, empty, tagged, checked⟩)
  have marshalled := marshalBody_of_valid valid
  refine ⟨_, marshalled, (marshalBody_ok marshalled).2.1, ?_, fun _ => lays, names⟩
  intro inline
  exact absurd inline sharded

theorem holds_publish_inline (objects : Objects) (made : Repack) (patch : Patch) (current : Body)
    (names : ∀ name ∈ refs, Utf8.Valid name) :
    ∃ stored, marshalBody (publishBody current (.inline refs) made patch) = .ok stored ∧
      Holds h objects stored refs := by
  by_cases empty : refs = ∅
  · subst empty
    exact holds_stored_inline (b := emptyBody current) rfl rfl names
  · have drafted : publishBody current (.inline refs) made patch =
        draftBody current (.inline refs) made patch := by simp [publishBody, emptyTarget, empty]
    rw [drafted]
    exact holds_stored_inline (b := draftBody current (.inline refs) made patch) rfl rfl names

theorem holds_publish_sharded (made : Repack) (patch : Patch) (current : Body)
    (writes : List ShardWrite) {next : List RefShard} (lays : Lays h objects next refs)
    (checked : validateRefShards next = .ok ()) (names : ∀ name ∈ refs, Utf8.Valid name) :
    ∃ stored, marshalBody (publishBody current (.sharded writes next) made patch) = .ok stored ∧
      Holds h objects stored refs := by
  by_cases empty : next = []
  · subst empty
    cases lays_nil lays
    exact holds_stored_inline (b := emptyBody current) rfl rfl names
  · have drafted : publishBody current (.sharded writes next) made patch =
        draftBody current (.sharded writes next) made patch := by
      simp [publishBody, emptyTarget, empty]
    rw [drafted]
    exact holds_stored_sharded (b := draftBody current (.sharded writes next) made patch) empty
      rfl rfl checked lays names

theorem republish_eq {stored : Body}
    (staged : RefStore.stage h s.objects s.body updates = .ok stage)
    (marshalled : marshalBody (publishBody s.body stage made patch) = .ok stored) :
    republish h made patch s updates = .ok ⟨putShards (stageWrites stage) s.objects, stored⟩ := by
  unfold republish
  simp [staged, marshalled]

theorem Prepared.republish {git : Git} {plan : Plan}
    (prepared : Prepared h git s.objects made patch plan stage) (base : plan.base.body = s.body) :
    republish h made patch s plan.updates = .ok ⟨putShards plan.writes s.objects, plan.body⟩ := by
  have marshalled : marshalBody (publishBody s.body stage made patch) = .ok plan.body := by
    rw [← base]
    unfold publishBody
    rcases prepared.body with ⟨empty, -, stored⟩ | ⟨occupied, -, -, stored⟩
    · rwa [if_pos empty]
    · rwa [if_neg (by simp [occupied])]
  have staged := prepared.staged
  rw [base] at staged
  rw [republish_eq staged marshalled, prepared.writes]

/-- An update that sets UTF-8 names is published, and the new body holds the updated refs. -/
theorem republish_holds (made : Repack) (patch : Patch) (holds : Holds h s.objects s.body refs)
    (addressed : Addressed h s.objects) (valid : ValidUpserts updates) :
    ∃ next, republish h made patch s updates = .ok next ∧
      Holds h next.objects next.body (applyUpdates updates refs) ∧ Addressed h next.objects := by
  have names := valid_applyUpdates holds.names valid
  rcases holds.stage updates with ⟨-, staged⟩ | ⟨sharded, writes, next, staged, split⟩
  · obtain ⟨stored, marshalled, held⟩ := holds_publish_inline (h := h) s.objects made patch
      s.body names
    exact ⟨_, republish_eq staged marshalled, held, addressed⟩
  · have lays := holds.lays sharded
    have effect := stageSharded_staged lays.resolves split
    obtain ⟨still, grows, put⟩ := putShards_spec addressed effect.wellFormed
    have moved := lays.staged holds.names valid effect grows put
    obtain ⟨counted, ascending⟩ := lays.staged_entries split
      (validateRefShards_of_body holds.valid) moved.distinct
    obtain ⟨stored, marshalled, held⟩ := holds_publish_sharded made patch s.body writes moved
      (moved.validateRefShards still counted ascending) names
    exact ⟨_, republish_eq staged marshalled, held, still⟩

theorem names_of_list {body : Body} (listed : list h objects body = .ok out)
    (inline : ∀ name ∈ body.refs, Utf8.Valid name)
    (parts : ∀ ref ∈ body.refShards, ∃ part, fetchShard h objects ref = .ok part ∧
      ∀ name ∈ part, Utf8.Valid name) :
    ∀ name ∈ out, Utf8.Valid name := by
  unfold list at listed
  split at listed
  · cases listed
    exact inline
  · split at listed
    · choose! part fetched valid using parts
      rw [listShards_of_fetched fetched] at listed
      cases listed
      intro name member
      rcases mem_foldl_union.mp member with before | ⟨ref, inside, held⟩
      · exact absurd before notMem_empty
      · exact valid ref inside name held
    · cases listed

/-- Whatever is published is read back with UTF-8 names only. -/
theorem names_of_republish (holds : Holds h s.objects s.body refs)
    (addressed : Addressed h s.objects) {next : Snapshot}
    (done : republish h made patch s updates = .ok next)
    (listed : list h next.objects next.body = .ok out) : ∀ name ∈ out, Utf8.Valid name := by
  obtain ⟨stage, staged, done⟩ := bind_ok done
  obtain ⟨stored, marshalled, done⟩ := bind_ok done
  cases done
  have shape := (marshalBody_ok (mapError_ok marshalled)).2.2
  refine names_of_list listed ?_ ?_
  · intro name member
    rw [shape] at member
    exact valid_decodeRefs member
  intro ref member
  have entry : ref ∈ (publishBody s.body stage made patch).refShards := by
    rw [shape] at member
    exact member
  rcases holds.stage updates with ⟨-, inline⟩ | ⟨sharded, writes, shards, chosen, split⟩
  · cases (mapError_ok staged).symm.trans inline
    exact absurd entry (by unfold publishBody; split <;> simp [emptyBody, draftBody])
  · cases (mapError_ok staged).symm.trans chosen
    have inside : ref ∈ shards := by
      unfold publishBody at entry
      split at entry
      · cases entry
      · exact entry
    have lays := holds.lays sharded
    have effect := stageSharded_staged lays.resolves split
    obtain ⟨-, grows, put⟩ := putShards_spec addressed effect.wellFormed
    by_cases changed : ref.shard ∈ changedShards h updates
    · obtain ⟨part, -, -, written⟩ := effect.rewritten ref inside changed
      obtain ⟨held, hashed⟩ := written _ grows put
      exact ⟨_, fetchShard_of_held held hashed, fun name read => valid_decodeRefs read⟩
    · have before := lays.fetched ref (effect.kept ref inside changed)
      refine ⟨_, fetchShard_grows grows before, ?_⟩
      intro name read
      exact holds.names name (mem_shardPart.mp read).2

theorem validUpserts_of_names (distinct : (updates.map Prod.fst).Nodup)
    (names : ∀ name ∈ applyUpdates updates refs, Utf8.Valid name) : ValidUpserts updates := by
  intro update member kept
  apply names
  rw [mem_iff, lookup_applyUpdates_of_mem distinct member, kept]
  exact ⟨update.2, rfl⟩

/-! Whole sequences. -/

def AgreesThroughout (h : Hashing) (made : Repack) (patch : Patch) (s : Snapshot) (refs : RefMap)
    (sequence : List Updates) : Prop :=
  ∀ first, first <+: sequence →
    ∃ next, republishAll h made patch s first = .ok next ∧ Agrees h next (inlineRefs refs first)

theorem agreesThroughout_cons {rest : List Updates} :
    AgreesThroughout h made patch s refs (updates :: rest) ↔
      Agrees h s refs ∧ ∃ next, republish h made patch s updates = .ok next ∧
        AgreesThroughout h made patch next (applyUpdates updates refs) rest := by
  constructor
  · intro through
    obtain ⟨same, opened, agrees⟩ := through [] nil_prefix
    cases opened
    obtain ⟨last, done, -⟩ := through [updates] (cons_prefix_cons.mpr ⟨rfl, nil_prefix⟩)
    obtain ⟨next, published, -⟩ := bind_ok done
    refine ⟨agrees, next, published, ?_⟩
    intro first start
    obtain ⟨last, all, agreed⟩ :=
      through (updates :: first) (cons_prefix_cons.mpr ⟨rfl, start⟩)
    obtain ⟨other, again, rest⟩ := bind_ok all
    cases published.symm.trans again
    exact ⟨last, rest, agreed⟩
  · intro split
    obtain ⟨agrees, next, published, through⟩ := split
    intro first start
    cases first with
    | nil => exact ⟨s, rfl, agrees⟩
    | cons head tail =>
      obtain ⟨rfl, tailStart⟩ := cons_prefix_cons.mp start
      obtain ⟨last, rest, agreed⟩ := through tail tailStart
      refine ⟨last, ?_, agreed⟩
      simp [republishAll, published, rest]

theorem agreesThroughout_iff (holds : Holds h s.objects s.body refs)
    (addressed : Addressed h s.objects) {sequence : List Updates}
    (distinct : ∀ updates ∈ sequence, (updates.map Prod.fst).Nodup) :
    AgreesThroughout h made patch s refs sequence ↔
      ∀ updates ∈ sequence, ValidUpserts updates := by
  induction sequence generalizing s refs with
  | nil =>
    simp only [not_mem_nil, false_implies, implies_true, iff_true]
    intro first start
    cases prefix_nil.mp start
    exact ⟨s, rfl, agrees_of_holds holds⟩
  | cons updates rest ih =>
    rw [agreesThroughout_cons, forall_mem_cons]
    have later : ∀ other ∈ rest, (other.map Prod.fst).Nodup :=
      fun other member => distinct other (mem_cons_of_mem _ member)
    constructor
    · intro both
      obtain ⟨-, next, done, through⟩ := both
      obtain ⟨same, opened, agrees⟩ := through [] nil_prefix
      cases opened
      have valid := validUpserts_of_names (distinct updates mem_cons_self)
        (names_of_republish holds addressed done agrees.listed)
      obtain ⟨other, again, held, still⟩ :=
        republish_holds made patch holds addressed valid
      cases done.symm.trans again
      exact ⟨valid, (ih held still later).mp through⟩
    · intro both
      obtain ⟨next, done, held, still⟩ :=
        republish_holds made patch holds addressed both.1
      exact ⟨agrees_of_holds holds, next, done, (ih held still later).mpr both.2⟩

/-! The two starting points. -/

theorem resharded_holds (inline : s.body.refShards = []) (untagged : s.body.refSharding = "")
    (names : ∀ name ∈ s.body.refs, Utf8.Valid name) (addressed : Addressed h s.objects) :
    ∃ next, resharded h s = .ok next ∧ Holds h next.objects next.body s.body.refs ∧
      Addressed h next.objects := by
  have valid := validateBody_iff.mpr (.inl ⟨inline, untagged⟩)
  have read : unmarshalBody s.body = .ok s.body := by
    simp [unmarshalBody, valid]
  by_cases empty : s.body.refs = ∅
  · refine ⟨s, ?_, ⟨valid, fun _ => rfl, fun sharded => absurd inline sharded, names⟩, addressed⟩
    simp [resharded, read, empty]
  · obtain ⟨still, grows, put⟩ := putShards_spec addressed (reshard_wellFormed (h := h) s.body.refs)
    have lays := reshard_lays names put
    obtain ⟨stored, marshalled, held⟩ := holds_stored_sharded (b := reshardBody h s.body)
      (reshard_ne_nil empty) rfl rfl (lays.validateRefShards still (reshard_counted s.body.refs)
        (reshard_ascending s.body.refs)) lays names
    refine ⟨⟨putShards (reshard h s.body.refs).1 s.objects, stored⟩, ?_, held, still⟩
    simp [resharded, read, empty, inline, marshalled]

/-- From an inline repository, as it is or resharded, the published refs agree with the inline
ones after every update map exactly if every name that is set is UTF-8. -/
theorem layouts_agree_iff (h : Hashing) (made : Repack) (patch : Patch) (s : Snapshot)
    (sequence : List Updates) (inline : s.body.refShards = []) (untagged : s.body.refSharding = "")
    (names : ∀ name ∈ s.body.refs, Utf8.Valid name) (addressed : Addressed h s.objects)
    (distinct : ∀ updates ∈ sequence, (updates.map Prod.fst).Nodup) :
    (∃ next, resharded h s = .ok next) ∧
    ∀ opened, opened = s ∨ resharded h s = .ok opened →
      (AgreesThroughout h made patch opened s.body.refs sequence ↔
        ∀ updates ∈ sequence, ValidUpserts updates) := by
  obtain ⟨next, done, held, still⟩ := resharded_holds inline untagged names addressed
  refine ⟨⟨next, done⟩, ?_⟩
  intro opened start
  rcases start with rfl | again
  · have valid := validateBody_iff.mpr (.inl ⟨inline, untagged⟩)
    exact agreesThroughout_iff
      ⟨valid, fun _ => rfl, fun sharded => absurd inline sharded, names⟩ addressed distinct
  · cases done.symm.trans again
    exact agreesThroughout_iff held still distinct

def onePack : Repack := ⟨"aaaaaaaaaaaaaaaaaaaaaaaaaaaaaaaaaaaaaaaa", 0, 0, "", ""⟩

def oneBranch : Snapshot :=
  ⟨fun _ => none, sourceBody (Dict.insertAll [(headRef 0x6D, objectOne)] ∅) (headRef 0x6D) onePack⟩

theorem oneBranch_names : ∀ name ∈ oneBranch.body.refs, Utf8.Valid name := by
  intro name member
  have same : name = headRef 0x6D := by
    simpa [notMem_empty] using Dict.mem_insertAll.mp member
  rw [same]
  rfl

/-- A resharded repository takes a new branch and a deletion of the old one. -/
theorem layouts_agree_sample : ∃ opened, resharded spelledHashing oneBranch = .ok opened ∧
    AgreesThroughout spelledHashing onePack ⟨none, ""⟩ opened oneBranch.body.refs
      [[(headRef 0x78, objectTwo)], [(headRef 0x6D, nullOID)]] := by
  obtain ⟨⟨opened, done⟩, exactly⟩ := layouts_agree_iff spelledHashing onePack ⟨none, ""⟩ oneBranch
    [[(headRef 0x78, objectTwo)], [(headRef 0x6D, nullOID)]] rfl rfl oneBranch_names
    (fun _ _ held => nomatch held) (by decide)
  refine ⟨opened, done, (exactly opened (.inr done)).mpr ?_⟩
  intro updates member update inside kept
  simp only [mem_cons, not_mem_nil, or_false] at member
  rcases member with rfl | rfl <;> cases List.mem_singleton.mp inside
  · rfl
  · cases kept

set_option maxRecDepth 8000 in
/-- A branch named by the byte `0xFF` is filed in the shard of that byte under the name JSON
makes of it: it is listed under a name that lookup does not find, and not under its own. -/
theorem non_utf8_branch_misfiled : ∃ opened next listed,
    resharded spelledHashing oneBranch = .ok opened ∧
      republish spelledHashing onePack ⟨none, ""⟩ opened [(headRef 0xFF, objectTwo)] = .ok next ∧
      RefStore.list spelledHashing next.objects next.body = .ok listed ∧
      (inlineRefs oneBranch.body.refs [[(headRef 0xFF, objectTwo)]]).lookup (headRef 0xFF) =
        some objectTwo ∧
      listed.lookup (headRef 0xFF) = none ∧
      listed.lookup (Utf8.coerce (headRef 0xFF)) = some objectTwo ∧
      RefStore.lookup spelledHashing next.objects next.body (Utf8.coerce (headRef 0xFF)) =
        .ok none := by
  refine ⟨_, _, _, rfl, rfl, rfl, ?_, ?_, ?_, ?_⟩
  all_goals decide

end BucketVcs.Importer
