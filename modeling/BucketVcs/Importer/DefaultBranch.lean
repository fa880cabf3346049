import BucketVcs.Importer.Republish

/-! The guard against deleting the current default branch, in both ref layouts. -/

namespace BucketVcs.Importer

open Manifest RefStore Results List Finmap Dict Utf8

variable {h : Hashing} {objects : Objects} {git : Git} {base : Root} {bare : Bare}
variable {updates : Updates} {made : Repack} {patch : Patch} {refs : RefMap}

def Refuses (h : Hashing) (git : Git) (objects : Objects) (base : Root) (bare : Bare)
    (updates : Updates) (made : Repack) (patch : Patch) : Prop :=
  prepare h git objects base bare updates made patch =
    .error (.deletesDefaultBranch base.body.defaultBranch)

/-- The branch is there before the update and not after it. -/
structure Removes (refs : RefMap) (updates : Updates) (branch : RefName) : Prop where
  before : branch ∈ refs
  after : branch ∉ applyUpdates updates refs

/-- What a sharded stage needs to notice that a branch is gone: its shard is not emptied, and
no ref left there is spelled like the branch in JSON. -/
structure Noticed (h : Hashing) (next : RefMap) (branch : RefName) : Prop where
  occupied : ∃ name ∈ next, h.shardKey name = h.shardKey branch
  apart : ∀ name ∈ next, h.shardKey name = h.shardKey branch → Utf8.coerce name ≠ branch

def WellNamed (updates : Updates) : Prop :=
  ∀ update ∈ updates, RefNames.validFullRefName update.1 = true

theorem checkRefnames_error {cause : Error} (failed : checkRefnames updates = .error cause) :
    cause = .emptyRefname ∨ ∃ name, cause = .invalidRefname name := by
  induction updates with
  | nil => cases failed
  | cons first rest ih =>
    have unfolded : checkRefnames (first :: rest) =
        checkRefname first >>= fun _ => checkRefnames rest := rfl
    rw [unfolded] at failed
    cases here : checkRefname first with
    | ok _ =>
      rw [here] at failed
      exact ih failed
    | error early =>
      rw [here] at failed
      cases failed
      unfold checkRefname at here
      split at here
      · cases here
        exact .inl rfl
      · unfold require at here
        split at here
        · cases here
        · cases here
          exact .inr ⟨first.1, rfl⟩

theorem checkRefnames_iff : checkRefnames updates = .ok () ↔ WellNamed updates := by
  constructor
  · exact checkRefnames_ok
  · intro named
    induction updates with
    | nil => rfl
    | cons first rest ih =>
      have full := named first mem_cons_self
      have nonempty : first.1 ≠ [] := by
        intro empty
        rw [empty] at full
        cases full
      have here : checkRefname first = .ok () := by simp [checkRefname, nonempty, full, require]
      have later := ih fun update member => named update (mem_cons_of_mem _ member)
      calc
        checkRefnames (first :: rest) = checkRefname first >>= fun _ => checkRefnames rest := rfl
        _ = checkRefnames rest := by rw [here]; rfl
        _ = .ok () := later

theorem guard_error_iff {body : Body} {stage : Stage} (holds : Holds h objects body refs)
    {cause : Error} : guardDefaultBranch h objects body stage = .error cause ↔
      cause = .deletesDefaultBranch body.defaultBranch ∧ body.defaultBranch ≠ [] ∧
        body.defaultBranch ∈ refs ∧ stage.lookup h body.defaultBranch = .ok none := by
  unfold guardDefaultBranch
  rw [holds.lookup, ← lookup_isSome]
  by_cases unborn : body.defaultBranch = []
  · simp [unborn]
  cases refs.lookup body.defaultBranch with
  | none => simp [require]
  | some oid =>
    cases stage.lookup h body.defaultBranch with
    | error notCovered => simp [require]
    | ok after =>
      cases after <;> simp [unborn, bind, Except.bind, require, eq_comm]

theorem refuses_iff_guard (holds : Holds h objects base.body refs) :
    Refuses h git objects base bare updates made patch ↔
      WellNamed updates ∧ ∃ stage, RefStore.stage h objects base.body updates = .ok stage ∧
        guardDefaultBranch h objects base.body stage =
          .error (.deletesDefaultBranch base.body.defaultBranch) := by
  constructor
  · intro refused
    rcases bind_error_iff.mp refused with early | ⟨current, read, refused⟩
    · obtain ⟨cause, -, same⟩ := mapError_error_iff.mp early
      cases same
    obtain ⟨-, rfl⟩ := unmarshalBody_ok (mapError_ok read)
    rcases bind_error_iff.mp refused with early | ⟨⟨⟩, named, refused⟩
    · rcases checkRefnames_error early with same | ⟨name, same⟩ <;> cases same
    rcases bind_error_iff.mp refused with early | ⟨stage, staged, refused⟩
    · obtain ⟨cause, -, same⟩ := mapError_error_iff.mp early
      cases same
    refine ⟨checkRefnames_iff.mp named, stage, mapError_ok staged, ?_⟩
    rcases bind_error_iff.mp refused with guarded | ⟨⟨⟩, -, refused⟩
    · exact guarded
    -- What follows the guard never gives its reason.
    rcases bind_error_iff.mp refused with early | ⟨effective, -, refused⟩
    · cases stage <;> simp [buildEffectiveRefs, bind_error_iff, mapError_error_iff] at early
    rcases bind_error_iff.mp refused with early | ⟨⟨⟩, -, refused⟩
    · cases (require_error_iff.mp early).2
    split at refused <;>
      simp [bind_error_iff, mapError_error_iff, require_error_iff] at refused
  · intro guarded
    obtain ⟨named, stage, staged, refused⟩ := guarded
    have read : unmarshalBody base.body = .ok base.body := by
      simp [unmarshalBody, holds.valid]
    simp [Refuses, prepare, read, checkRefnames_iff.mpr named, staged, refused]

/-! What each layout notices. -/

theorem removes_names {branch : RefName} (removes : Removes refs updates branch) :
    ∃ update ∈ updates, update.1 = branch := by
  by_contra unnamed
  apply removes.after
  have absent : branch ∉ updates.map Prod.fst := by
    intro member
    obtain ⟨update, inside, same⟩ := List.mem_map.mp member
    exact unnamed ⟨update, inside, same⟩
  rw [mem_iff, lookup_applyUpdates_of_not_mem absent]
  exact mem_iff.mp removes.before

theorem mem_decode_encode {name : RefName} :
    name ∈ decodeRefs (encodeRefs refs) ↔ ∃ written ∈ refs, coerce written = name := by
  constructor
  · intro member
    obtain ⟨oid, found⟩ := mem_iff.mp member
    obtain ⟨written, held, same⟩ := lookup_decodeRefs_encodeRefs found
    exact ⟨written, mem_of_lookup_eq_some held, same⟩
  · intro spelled
    obtain ⟨written, held, same⟩ := spelled
    obtain ⟨oid, found⟩ := mem_iff.mp held
    apply mem_insertAll.mpr (.inl _)
    have entry := (mem_entries refs written oid).mpr found
    exact List.mem_map.mpr ⟨_, List.mem_map.mpr ⟨_, entry, rfl⟩, same⟩

variable {writes : List ShardWrite}

/-- In the sharded layout the stage reports the branch as gone exactly if it is gone, its shard
is not emptied, and no ref there is spelled like it. -/
theorem stage_lookup_none {shards next : List RefShard}
    {branch : RefName} (lays : Lays h objects shards refs) (names : ∀ name ∈ refs, Valid name)
    (staged : stageSharded h objects shards updates = .ok (.sharded writes next))
    (present : branch ∈ refs) :
    Stage.lookup h branch (.sharded writes next) = .ok none ↔
      branch ∉ applyUpdates updates refs ∧ Noticed h (applyUpdates updates refs) branch := by
  have own : coerce branch = branch := names branch present
  rcases lays.stage_lookup staged branch with ⟨written, looked⟩ | ⟨unwritten, missed⟩
  · rw [looked, Except.ok.injEq, lookup_eq_none, mem_decode_encode]
    constructor
    · intro unspelled
      refine ⟨fun kept => unspelled ⟨branch, mem_shardPart.mpr ⟨rfl, kept⟩, own⟩, ?_, ?_⟩
      · obtain ⟨name, member⟩ := exists_mem_of_ne_empty written.nonempty
        exact ⟨name, (mem_shardPart.mp member).2, (mem_shardPart.mp member).1⟩
      · intro name member placed same
        exact unspelled ⟨name, mem_shardPart.mpr ⟨placed, member⟩, same⟩
    · intro gone spelled
      obtain ⟨name, member, same⟩ := spelled
      obtain ⟨placed, inside⟩ := mem_shardPart.mp member
      exact gone.2.apart name inside placed same
  · rw [missed]
    constructor
    · intro never
      cases never
    · intro gone
      obtain ⟨after, ⟨⟨name, member, placed⟩, apart⟩⟩ := gone
      exfalso
      apply unwritten
      refine ⟨?_, ?_, ?_⟩
      · obtain ⟨update, inside, same⟩ := removes_names ⟨present, after⟩
        exact mem_changedShards.mpr ⟨update, inside, by rw [same]⟩
      · intro empty
        have inside := mem_shardPart.mpr ⟨placed, member⟩
        rw [empty] at inside
        exact absurd inside notMem_empty
      · -- An unchanged content would still spell the branch.
        intro ref found hashed
        obtain ⟨inside, same⟩ := existingShard_some found
        obtain ⟨contents, -, hash, part⟩ := fetchShard_ok (lays.fetched ref inside)
        have equal := h.contentHash_injective (hash.trans hashed)
        have before : branch ∈ shardPart h ref.shard refs :=
          mem_shardPart.mpr ⟨same.symm, present⟩
        rw [part, equal, mem_decode_encode] at before
        obtain ⟨name, left, spelled⟩ := before
        obtain ⟨placed, inside⟩ := mem_shardPart.mp left
        exact apart name inside placed spelled

/-- `BuildAndCommit` refuses exactly the well named updates that remove the default branch and,
over a sharded root, are noticed to do so. -/
theorem refuses_iff (holds : Holds h objects base.body refs) :
    Refuses h git objects base bare updates made patch ↔
      WellNamed updates ∧ Removes refs updates base.body.defaultBranch ∧
        (base.body.refShards ≠ [] →
          Noticed h (applyUpdates updates refs) base.body.defaultBranch) := by
  have born : WellNamed updates → Removes refs updates base.body.defaultBranch →
      base.body.defaultBranch ≠ [] := by
    intro named removes empty
    obtain ⟨update, member, same⟩ := removes_names removes
    have full := named update member
    rw [same, empty] at full
    cases full
  have looks (stage : Stage) (staged : RefStore.stage h objects base.body updates = .ok stage)
      (present : base.body.defaultBranch ∈ refs) :
      stage.lookup h base.body.defaultBranch = .ok none ↔
        base.body.defaultBranch ∉ applyUpdates updates refs ∧ (base.body.refShards ≠ [] →
          Noticed h (applyUpdates updates refs) base.body.defaultBranch) := by
    rcases holds.stage updates with ⟨inline, done⟩ | ⟨sharded, writes, next, done, split⟩
    · cases staged.symm.trans done
      simp [Stage.lookup, inline, Finmap.lookup_eq_none]
    · cases staged.symm.trans done
      rw [stage_lookup_none (holds.lays sharded) holds.names split present]
      simp [sharded]
  rw [refuses_iff_guard holds]
  simp only [guard_error_iff holds, true_and]
  constructor
  · intro refused
    obtain ⟨named, stage, staged, -, present, gone⟩ := refused
    obtain ⟨after, noticed⟩ := (looks stage staged present).mp gone
    exact ⟨named, ⟨present, after⟩, noticed⟩
  · intro decided
    obtain ⟨named, removes, noticed⟩ := decided
    obtain ⟨stage, staged⟩ : ∃ stage, RefStore.stage h objects base.body updates = .ok stage := by
      rcases holds.stage updates with ⟨-, done⟩ | ⟨-, writes, next, done, -⟩
      · exact ⟨_, done⟩
      · exact ⟨_, done⟩
    exact ⟨named, stage, staged, born named removes, removes.before,
      (looks stage staged removes.before).mpr ⟨removes.after, noticed⟩⟩

/-- The guard decides by the refs before and after the update exactly if a removal of the
default branch is well named and, over a sharded root, noticed; and the two layouts of one ref
map decide alike exactly if a well named removal is noticed. -/
theorem default_branch_guard_iff (h : Hashing) (git : Git) (objects : Objects) (bare : Bare)
    (updates : Updates) (made : Repack) (patch : Patch) (refs : RefMap) (branch : RefName) :
    (∀ base, Holds h objects base.body refs → base.body.defaultBranch = branch →
      ((Refuses h git objects base bare updates made patch ↔ Removes refs updates branch) ↔
        (Removes refs updates branch → WellNamed updates ∧
          (base.body.refShards ≠ [] → Noticed h (applyUpdates updates refs) branch)))) ∧
    (∀ inline sharded, Holds h objects inline.body refs → Holds h objects sharded.body refs →
      inline.body.refShards = [] → sharded.body.refShards ≠ [] →
      inline.body.defaultBranch = branch → sharded.body.defaultBranch = branch →
      ((Refuses h git objects inline bare updates made patch ↔
          Refuses h git objects sharded bare updates made patch) ↔
        (WellNamed updates → Removes refs updates branch →
          Noticed h (applyUpdates updates refs) branch))) := by
  constructor
  · intro base holds rfl
    rw [refuses_iff holds]
    tauto
  · intro inline sharded flat split isInline isSharded rfl same
    rw [refuses_iff flat, refuses_iff split, same]
    tauto

def twoObjects : Git := ⟨fun _ => ∅, fun _ => {objectOne, objectTwo}, fun _ => true⟩

def bothTips : Bare := ⟨∅, {objectOne, objectTwo}⟩

def twoBranches : Snapshot :=
  ⟨fun _ => none, sourceBody (Dict.insertAll [(headRef 0x6D, objectOne), (headRef 0x78, objectTwo)] ∅)
    (headRef 0x6D) onePack⟩

def dropDefault : Updates := [(headRef 0x6D, nullOID)]

theorem dropDefault_removes : Removes twoBranches.body.refs dropDefault (headRef 0x6D) :=
  ⟨by decide, by decide⟩

/-- The inline layout refuses to drop the default branch. -/
theorem default_branch_guard_sample : Refuses spelledHashing twoObjects (fun _ => none)
    ⟨1, 1, twoBranches.body⟩ bothTips dropDefault onePack ⟨none, ""⟩ := by
  have names : ∀ name ∈ twoBranches.body.refs, Utf8.Valid name := by
    intro name member
    have known : name = headRef 0x6D ∨ name = headRef 0x78 := by
      simpa [notMem_empty] using mem_insertAll.mp member
    rcases known with rfl | rfl <;> rfl
  have holds : Holds spelledHashing (fun _ => none) twoBranches.body twoBranches.body.refs :=
    ⟨rfl, fun _ => rfl, fun sharded => absurd rfl sharded, names⟩
  have exactly := (default_branch_guard_iff spelledHashing twoObjects (fun _ => none) bothTips
    dropDefault onePack ⟨none, ""⟩ twoBranches.body.refs (headRef 0x6D)).1
    ⟨1, 1, twoBranches.body⟩ holds rfl
  apply (exactly.mpr fun _ => ⟨?_, fun sharded => absurd rfl sharded⟩).mpr dropDefault_removes
  intro update member
  cases List.mem_singleton.mp member
  decide

set_option maxRecDepth 8000 in
/-- The sharded layout of the same refs lets it go: the shard of `m` is emptied, so it is not
among the writes and counts as unchanged. -/
theorem sharded_default_branch_deleted : ∃ opened plan,
    resharded spelledHashing twoBranches = .ok opened ∧
      prepare spelledHashing twoObjects opened.objects ⟨1, 1, opened.body⟩ bothTips dropDefault
        onePack ⟨none, ""⟩ = .ok plan ∧
      opened.body.defaultBranch = headRef 0x6D ∧ twoBranches.body.refs.lookup (headRef 0x6D) =
        some objectOne ∧
      plan.effective.lookup (headRef 0x6D) = none ∧
      prepare spelledHashing twoObjects twoBranches.objects ⟨1, 1, twoBranches.body⟩ bothTips
        dropDefault onePack ⟨none, ""⟩ = .error (.deletesDefaultBranch (headRef 0x6D)) := by
  refine ⟨_, _, rfl, rfl, rfl, ?_, ?_, ?_⟩
  all_goals decide

/-! One ref through a published update, in either layout. It has the value the update gives it, as
long as the update sets no other name that JSON turns into the name of the ref. -/

def moved (name : RefName) (updates : Updates) (value : Option OID) : Option OID :=
  updates.foldl
    (fun value update =>
      if name = update.1 then (if deletes update.2 then none else some update.2) else value)
    value

/-- Every name the update sets that is stored under `name` is `name`. -/
def Alone (name : RefName) (updates : Updates) : Prop :=
  ∀ update ∈ updates, deletes update.2 = false → Utf8.coerce update.1 = name → update.1 = name

/-- The root has the ref with this value, or not at all: among the inline refs, or in the shard
its name falls into and in no other. -/
structure Carries (h : Hashing) (s : Snapshot) (name : RefName) (value : Option OID) : Prop where
  addressed : Addressed h s.objects
  resolves : Resolves h s.objects s.body.refShards
  valid : validateBody s.body = .ok ()
  inline : s.body.refShards = [] →
    s.body.refs.lookup name = value ∧ ∀ other ∈ s.body.refs, Utf8.Valid other
  distinct : (s.body.refShards.map RefShard.shard).Nodup
  parts : ∀ ref ∈ s.body.refShards, ∀ part, fetchShard h s.objects ref = .ok part →
    part.lookup name = (if ref.shard = h.shardKey name then value else none) ∧
      ∀ other ∈ part, Utf8.Valid other
  present : s.body.refShards ≠ [] → value.isSome →
    ∃ ref ∈ s.body.refShards, ref.shard = h.shardKey name

variable {h : Hashing} {made : Repack} {patch : Patch} {s : Snapshot} {name : RefName}
  {value : Option OID} {refs : RefMap}

theorem lookup_applyUpdates (updates : Updates) (refs : RefMap) (name : RefName) :
    (applyUpdates updates refs).lookup name = moved name updates (refs.lookup name) := by
  induction updates generalizing refs with
  | nil => rfl
  | cons update rest ih =>
    have first := ih (applyUpdate refs update)
    rw [lookup_applyUpdate] at first
    exact first

attribute [local simp] updatesOf

theorem moved_updatesOf (updates : Updates) (shard : UInt8) (value : Option OID) :
    moved name (updatesOf h updates shard) value =
      if h.shardKey name = shard then moved name updates value else value := by
  induction updates generalizing value with
  | nil => simp [moved]
  | cons update rest ih =>
    by_cases same : name = update.1
    · subst same
      by_cases here : h.shardKey update.1 = shard
      · simpa [moved, here] using ih _
      · simpa [here] using ih value
    · by_cases here : h.shardKey update.1 = shard
      · simpa [moved, here, same] using ih value
      · simpa [moved, here, same] using ih value

theorem lookup_stored (alone : ∀ other ∈ refs, coerce other = name → other = name)
    (named : Valid name) : (decodeRefs (encodeRefs refs)).lookup name = refs.lookup name := by
  cases read : (decodeRefs (encodeRefs refs)).lookup name with
  | some oid =>
    obtain ⟨written, found, same⟩ := lookup_decodeRefs_encodeRefs read
    rw [← alone written (mem_of_lookup_eq_some found) same, found]
  | none =>
    cases found : refs.lookup name with
    | none => rfl
    | some oid =>
      have written : (coerce name, oid) ∈ encodeRefs refs :=
        List.mem_map.mpr ⟨(name, oid), (mem_entries refs name oid).mpr found, rfl⟩
      have coerced : coerce name = name := named
      rw [coerced] at written
      have member : name ∈ decodeRefs (encodeRefs refs) :=
        mem_insertAll.mpr (.inl (List.mem_map.mpr ⟨_, written, rfl⟩))
      exact absurd read (by simpa [mem_iff, Option.ne_none_iff_exists'] using member)

variable {updates : Updates} {shard : UInt8} {after : Objects}

theorem mem_applyUpdates {other : RefName} (member : other ∈ applyUpdates updates refs) :
    other ∈ refs ∨ ∃ update ∈ updates, update.1 = other ∧ deletes update.2 = false := by
  induction updates generalizing refs with
  | nil => exact .inl member
  | cons update rest ih =>
    have step : other ∈ applyUpdates rest (applyUpdate refs update) := member
    rcases ih step with inside | ⟨later, listed, set⟩
    · rw [mem_iff, lookup_applyUpdate] at inside
      obtain ⟨oid, found⟩ := inside
      split at found
      · rename_i same
        split at found
        · cases found
        · rename_i kept
          exact .inr ⟨update, mem_cons_self, same.symm, by simpa using kept⟩
      · exact .inl (mem_of_lookup_eq_some found)
    · exact .inr ⟨later, mem_cons_of_mem _ listed, set⟩

theorem lookup_republished (alone : Alone name updates) (names : ∀ other ∈ refs, Valid other)
    (named : Valid name) :
    (decodeRefs (encodeRefs (applyUpdates updates refs))).lookup name =
      moved name updates (refs.lookup name) := by
  rw [← lookup_applyUpdates]
  apply lookup_stored _ named
  intro other member same
  rcases mem_applyUpdates member with inside | ⟨update, listed, rfl, set⟩
  · have unchanged : coerce other = other := names other inside
    exact unchanged.symm.trans same
  · exact alone update listed set same

theorem Alone.updatesOf (alone : Alone name updates) (shard : UInt8) :
    Alone name (updatesOf h updates shard) :=
  fun update member => alone update (mem_of_mem_filter member)

theorem moved_of_unchanged (unchanged : h.shardKey name ∉ changedShards h updates) :
    moved name updates value = value := by
  have none_here : moved name (updatesOf h updates (h.shardKey name)) value = value := by
    have empty : updatesOf h updates (h.shardKey name) = [] := by
      apply filter_eq_nil_iff.mpr
      intro update member here
      exact unchanged (mem_changedShards.mpr ⟨update, member, of_decide_eq_true here⟩)
    rw [empty]
    rfl
  rwa [moved_updatesOf, if_pos rfl] at none_here

section

variable (carries : Carries h s name value)
include carries

section

variable (sharded : s.body.refShards ≠ [])
include sharded

theorem Carries.loaded
    {loaded : RefMap} (load : loadShard h s.objects s.body.refShards shard = .ok loaded) :
    loaded.lookup name = (if shard = h.shardKey name then value else none) ∧
      ∀ other ∈ loaded, Valid other := by
  unfold loadShard at load
  cases found : existingShard s.body.refShards shard with
  | some ref =>
    rw [found] at load
    obtain ⟨member, same⟩ := existingShard_some found
    rw [← same]
    exact carries.parts ref member loaded load
  | none =>
    rw [found] at load
    cases load
    refine ⟨?_, fun other member => absurd member notMem_empty⟩
    split
    · rename_i here
      cases value with
      | none => rfl
      | some oid =>
        obtain ⟨ref, member, placed⟩ := carries.present sharded rfl
        have absent := List.find?_eq_none.mp found ref member
        simp [placed, here] at absent
    · rfl

theorem Carries.stagedRefs
    {refs : RefMap} (staged : StagedRefs h s.objects s.body.refShards updates shard refs) :
    refs.lookup name = (if shard = h.shardKey name then moved name updates value else none) ∧
      (Valid name → Alone name updates →
        (decodeRefs (encodeRefs refs)).lookup name = refs.lookup name) := by
  obtain ⟨loaded, load, rfl⟩ := staged
  obtain ⟨found, names⟩ := carries.loaded sharded load
  constructor
  · rw [lookup_applyUpdates, moved_updatesOf, found]
    by_cases here : shard = h.shardKey name
    · simp [here]
    · simp [here, Ne.symm here]
  · intro named alone
    rw [lookup_republished (alone.updatesOf shard) names named, lookup_applyUpdates]

theorem Carries.staged (alone : Alone name updates) (named : Valid name)
    {next : List RefShard} (effect : Staged h s.objects s.body.refShards updates writes next)
    (grows : Grows s.objects after) (put : ∀ w ∈ writes, after w.key = some w.contents) :
    (∀ ref ∈ next, ∀ part, fetchShard h after ref = .ok part →
      part.lookup name = (if ref.shard = h.shardKey name then moved name updates value else none) ∧
        ∀ other ∈ part, Valid other) ∧
    ((moved name updates value).isSome → ∃ ref ∈ next, ref.shard = h.shardKey name) := by
  constructor
  · intro ref member part fetched
    by_cases changed : ref.shard ∈ changedShards h updates
    · obtain ⟨refs, staged, -, written⟩ := effect.rewritten ref member changed
      obtain ⟨held, hashed⟩ := written after grows put
      obtain rfl := Except.ok.inj (fetched.symm.trans (fetchShard_of_held held hashed))
      obtain ⟨found, read⟩ := carries.stagedRefs sharded staged
      exact ⟨(read named alone).trans found, fun other inside => valid_decodeRefs inside⟩
    · obtain ⟨part', before⟩ := carries.resolves.fetched
      have inside := effect.kept ref member changed
      obtain rfl := Except.ok.inj (fetched.symm.trans (fetchShard_grows grows (before ref inside)))
      obtain ⟨found, names⟩ := carries.parts ref inside _ (before ref inside)
      refine ⟨found.trans ?_, names⟩
      split
      · rename_i here
        rw [moved_of_unchanged (here ▸ changed)]
      · rfl
  · intro kept
    by_cases changed : h.shardKey name ∈ changedShards h updates
    · obtain ⟨refs, staged, present⟩ := effect.present _ changed
      apply present
      intro empty
      have found := (carries.stagedRefs sharded staged).1
      rw [if_pos rfl, empty] at found
      rw [← found] at kept
      cases kept
    · rw [moved_of_unchanged changed] at kept
      obtain ⟨ref, member, placed⟩ := carries.present sharded kept
      exact ⟨ref, effect.untouched ref member (placed ▸ changed), placed⟩

end

end

theorem publishBody_inline (current : Body) (refs : RefMap) (made : Repack) (patch : Patch) :
    (publishBody current (.inline refs) made patch).refs = refs ∧
      (publishBody current (.inline refs) made patch).refShards = [] := by
  unfold publishBody
  split
  · rename_i empty
    exact ⟨(of_decide_eq_true empty).symm, rfl⟩
  · exact ⟨rfl, rfl⟩

theorem publishBody_sharded (current : Body) (writes : List ShardWrite) (shards : List RefShard)
    (made : Repack) (patch : Patch) :
    (publishBody current (.sharded writes shards) made patch).refs = ∅ ∧
      (publishBody current (.sharded writes shards) made patch).refShards = shards := by
  unfold publishBody
  split
  · rename_i empty
    exact ⟨rfl, (of_decide_eq_true empty).symm⟩
  · exact ⟨rfl, rfl⟩

theorem lookup_foldl_union {shards : List RefShard} {part : RefShard → RefMap}
    (parts : ∀ ref ∈ shards, (part ref).lookup name = if ref.shard = shard then value else none)
    (out : RefMap) :
    (shards.foldl (fun out ref => part ref ∪ out) out).lookup name =
      (if ∃ ref ∈ shards, ref.shard = shard then value else none).or (out.lookup name) := by
  induction shards generalizing out with
  | nil => simp
  | cons ref rest ih =>
    have here := parts ref mem_cons_self
    rw [foldl_cons, ih fun other member => parts other (mem_cons_of_mem _ member),
      lookup_union, here]
    by_cases same : ref.shard = shard
    · by_cases again : ∃ other ∈ rest, other.shard = shard <;> cases value <;> simp [again]
    · simp [same]

theorem Carries.republish (carries : Carries h s name value) (alone : Alone name updates)
    (named : Valid name) {next : Snapshot} (done : republish h made patch s updates = .ok next) :
    Carries h next name (moved name updates value) := by
  obtain ⟨stage, staged, done⟩ := bind_ok done
  obtain ⟨stored, marshalled, done⟩ := bind_ok done
  cases done
  obtain ⟨-, valid, shape⟩ := marshalBody_ok (mapError_ok marshalled)
  rcases stage_ok (mapError_ok staged) with ⟨inline, rfl⟩ | ⟨sharded, writes, shards, rfl, split⟩
  · obtain ⟨refs, noShards⟩ := publishBody_inline s.body (applyUpdates updates s.body.refs) made patch
    have unsharded : stored.refShards = [] := by
      rw [shape]
      exact noShards
    have written : stored.refs = decodeRefs (encodeRefs (applyUpdates updates s.body.refs)) := by
      rw [shape, refs]
    obtain ⟨found, names⟩ := carries.inline inline
    refine ⟨carries.addressed, ?_, valid, ?_, ?_, ?_, ?_⟩
    · simp [unsharded, Resolves]
    · intro _
      rw [written, lookup_republished alone names named, found]
      exact ⟨rfl, fun other member => valid_decodeRefs member⟩
    · simp [unsharded]
    · simp [unsharded]
    · intro still
      exact absurd unsharded still
  · obtain ⟨refs, entries⟩ := publishBody_sharded s.body writes shards made patch
    have listed : stored.refShards = shards := by
      rw [shape]
      exact entries
    have written : stored.refs = ∅ := by
      rw [shape, refs]
      exact decodeRefs_encodeRefs_eq_empty.mpr rfl
    have effect := stageSharded_staged carries.resolves split
    obtain ⟨still, grows, put⟩ := putShards_spec carries.addressed effect.wellFormed
    obtain ⟨parts, present⟩ := carries.staged sharded alone named effect grows put
    refine ⟨still, ?_, valid, ?_, ?_, ?_, ?_⟩
    · rw [listed]
      exact carries.resolves.staged effect grows put
    · -- no shard is left, so the ref is gone
      intro none_left
      rw [written]
      refine ⟨?_, fun other member => absurd member notMem_empty⟩
      cases kept : moved name updates value with
      | none => rfl
      | some oid =>
        obtain ⟨ref, member, -⟩ := present (by rw [kept]; rfl)
        rw [← listed, none_left] at member
        cases member
    · rw [listed]
      exact effect.distinct carries.distinct
    · rw [listed]
      exact parts
    · intro _
      rw [listed]
      exact present

theorem Carries.list (carries : Carries h s name value) :
    ∃ refs, list h s.objects s.body = .ok refs ∧ refs.lookup name = value := by
  by_cases inline : s.body.refShards = []
  · exact ⟨s.body.refs, list_inline inline, (carries.inline inline).1⟩
  · obtain ⟨part, fetched⟩ := carries.resolves.fetched
    have supported := supported_of_valid carries.valid inline
    refine ⟨s.body.refShards.foldl (fun out ref => part ref ∪ out) ∅, ?_, ?_⟩
    · unfold RefStore.list
      rw [if_neg inline, if_pos supported, listShards_of_fetched fetched]
    · have parts : ∀ ref ∈ s.body.refShards, (part ref).lookup name =
          if ref.shard = h.shardKey name then value else none :=
        fun ref member => (carries.parts ref member _ (fetched ref member)).1
      rw [lookup_foldl_union parts]
      cases value with
      | none => simp
      | some oid =>
        obtain ⟨ref, member, placed⟩ := carries.present inline rfl
        rw [if_pos ⟨ref, member, placed⟩]
        rfl

theorem carries_of_holds (holds : Holds h s.objects s.body refs) (addressed : Addressed h s.objects)
    (name : RefName) : Carries h s name (refs.lookup name) := by
  by_cases inline : s.body.refShards = []
  · refine ⟨addressed, ?_, holds.valid, ?_, ?_, ?_, ?_⟩
    · simp [inline, Resolves]
    · intro _
      rw [holds.inline inline]
      exact ⟨rfl, holds.names⟩
    all_goals simp [inline]
  · have lays := holds.lays inline
    refine ⟨addressed, lays.resolves, holds.valid, ?_, lays.distinct, ?_, ?_⟩
    · intro none_there
      exact absurd none_there inline
    · intro ref member part fetched
      obtain rfl := Except.ok.inj (fetched.symm.trans (lays.fetched ref member))
      rw [lookup_shardPart]
      refine ⟨?_, fun other inside => holds.names other (mem_shardPart.mp inside).2⟩
      by_cases here : ref.shard = h.shardKey name
      · simp [here]
      · simp [here, Ne.symm here]
    · intro _ some_there
      exact lays.covered name (lookup_isSome.mp some_there)

section

variable (carries : Carries h s name value)
include carries

theorem Carries.names {listed : RefMap}
    (read : RefStore.list h s.objects s.body = .ok listed) : ∀ other ∈ listed, Utf8.Valid other := by
  refine names_of_list read ?_ ?_
  · rcases validateBody_ok carries.valid with ⟨inline, -⟩ | ⟨-, empty, -⟩
    · exact (carries.inline inline).2
    · rw [empty]
      exact fun other member => absurd member notMem_empty
  · intro ref member
    obtain ⟨part, fetched⟩ := carries.resolves.fetched
    exact ⟨part ref, fetched ref member, (carries.parts ref member _ (fetched ref member)).2⟩

theorem Carries.grows (grows : Grows s.objects after) (addressed : Addressed h after) :
    Carries h ⟨after, s.body⟩ name value := by
  refine ⟨addressed, carries.resolves.grows grows, carries.valid, carries.inline, carries.distinct, ?_,
    carries.present⟩
  intro ref member part fetched
  obtain ⟨part', before⟩ := carries.resolves.fetched
  obtain rfl := Except.ok.inj (fetched.symm.trans (fetchShard_grows grows (before ref member)))
  exact carries.parts ref member _ (before ref member)

theorem Carries.wellFormed {stage : Stage}
    (staged : RefStore.stage h s.objects s.body updates = .ok stage) :
    ∀ write ∈ stageWrites stage, write.WellFormed h := by
  rcases stage_ok staged with ⟨-, rfl⟩ | ⟨-, writes, shards, rfl, split⟩
  · intro write member
    cases member
  · exact (stageSharded_staged carries.resolves split).wellFormed

end

end BucketVcs.Importer
