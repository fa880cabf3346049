import BucketVcs.RefStore.Staging
import BucketVcs.Writers.Safety

/-! Steps the writers can always take: a job whose callback accepts the current root can
commit it. A small repository to run them in. -/

namespace BucketVcs.Writers

open Manifest RefStore Importer ReceivePack Maintenance Interleave Transition List Dict Results

variable {git : Git} {h : Hashing} {first s : System git}

abbrev Reached (h : Hashing) (first s : System git) : Prop :=
  Interleave.Reached (Move h) (fun _ => True) first s

variable {t : ThreadId} {σ : World git} {statuses : Statuses}
  {bare : Bare} {made : Repack} {patch : Patch} {oid : OID} {name : RefName}

def World.commit (σ : World git) (t : ThreadId) (job : Job git) (version : Nat) (body : Body) :
    World git :=
  σ.replaceRoot ⟨t, job, σ.root, ⟨σ.root.manifestVersion + 1, version, body⟩⟩

theorem Reached.commit {job : Job git} {body : Body}
    (reached : Reached h first (advance s t σ (.ready job))) (trailer : Key → Option String)
    (version : Nat) (reply : Repo.Reply) (built : job.callback h trailer σ.root = .ok body)
    (none : job.writes = []) (unused : ∀ r ∈ σ.history, r.version ≠ version) :
    Reached h first (advance s t (σ.commit t job version body) (job.afterReply body reply)) := by
  have called := reached.again (.call built) trivial
  rw [none] at called
  exact called.again (.casTaken reply rfl unused) trivial

theorem gate_again {isAtomic : Bool} {passed : Statuses}
    (through : gate isAtomic statuses = .inr passed) : gate isAtomic passed = .inr passed := by
  obtain rfl := gate_inr through
  exact through

theorem Reached.accept (reached : Reached h first s) (t : ThreadId) (idle : s.threads t = .idle)
    (request : Request git.checkRefFormat) (through : gate request.isAtomic
      (precheckUpdates (list h s.shared.objects s.shared.root.body) request.updates) =
        .inr statuses) :
    Reached h first (advance s t s.shared (.accepted ⟨request, s.shared.root, statuses⟩)) :=
  (reached.take t idle (.receive request through) trivial).again
    (.screen (screens_refl _) (gate_again through)) trivial

attribute [local simp] emptyTarget

theorem prepare_inline {objects : Objects} {base : Root} {updates : Updates} {refs : RefMap}
    (valid : validateBody base.body = .ok ()) (inline : base.body.refShards = [])
    (staged : applyUpdates updates base.body.refs = refs) (named : checkRefnames updates = .ok ())
    (guarded : guardDefaultBranch h objects base.body (.inline refs) = .ok ())
    (held : tipsIn bare.objects refs = true) (occupied : refs ≠ ∅)
    (packed : tipsIn (git.contents made.packID) refs = true)
    (branch : Utf8.Valid base.body.defaultBranch) (names : ∀ name ∈ refs, Utf8.Valid name) :
    prepare h git objects base bare updates made patch =
      .ok ⟨base, updates, [], refs, some (packEntry made),
        draftBody base.body (.inline refs) made patch⟩ := by
  have read : unmarshalBody base.body = .ok base.body := by
    simp [unmarshalBody, valid]
  have stage : stage h objects base.body updates = .ok (.inline refs) := by
    simp [stage, inline, staged]
  have draft : validateBody (draftBody base.body (.inline refs) made patch) = .ok () := by
    exact validateBody_inline rfl rfl
  have written := marshalBody_stable draft branch names
  simp [Importer.prepare, read, named, stage, guarded, buildEffectiveRefs, held, occupied,
    packed, written, stageWrites, require]

theorem Reached.build {p : Push git} (reached : Reached h first (advance s t σ (.accepted p)))
    {plan : Plan} {pack : PackEntry}
    (built : prepare h git σ.objects σ.root bare (refUpdates (accepted p.statuses)) made
      patch = .ok plan) (packed : PacksAll git bare.refs made.packID) (held : plan.pack = some pack) :
    Reached h first (advance s t (σ.putPack pack) (.ready (.push p plan))) :=
  (reached.again (.prepare built fun _ => packed) trivial).again (.upload held) trivial

theorem Reached.putAll {start : Root} {pending : List ShardWrite}
    (reached : Reached h first (advance s t σ (.resharding start pending))) :
    Reached h first (advance s t { σ with objects := putShards pending σ.objects }
      (.resharding start [])) := by
  induction pending generalizing σ with
  | nil => exact reached
  | cons write rest ih => exact ih (reached.again .putReshard trivial)

/-! A repository with two branches, two objects that name no others, and the packs of both
and of the first. -/

def mainRef : RefName := headRef 0x6D

def otherRef : RefName := headRef 0x78

def packBoth : PackID := "aaaaaaaaaaaaaaaaaaaaaaaaaaaaaaaaaaaaaaaa"

def packOne : PackID := "bbbbbbbbbbbbbbbbbbbbbbbbbbbbbbbbbbbbbbbb"

def sampleGit : Git :=
  { links := fun _ => ∅
    contents := fun id =>
      if id = packBoth then {objectOne, objectTwo} else if id = packOne then {objectOne} else ∅
    checkRefFormat := RefNames.validRefName }

def bothRefs : RefMap := Dict.insertAll [(mainRef, objectOne), (otherRef, objectTwo)] ∅

def oneRef : RefMap := Dict.insertAll [(mainRef, objectOne)] ∅

theorem reach_sampleGit {tip : OID} : Reach sampleGit tip oid ↔ oid = tip := by
  constructor
  · intro reach
    induction reach with
    | refl => rfl
    | tail _ step _ => simp [sampleGit] at step
  · rintro rfl
    exact .refl

theorem lookup_bothRefs : bothRefs.lookup name = some oid ↔
    (name = mainRef ∧ oid = objectOne) ∨ (name = otherRef ∧ oid = objectTwo) := by
  rw [bothRefs, lookup_ofEntries (by decide)]
  simp

theorem lookup_oneRef : oneRef.lookup name = some oid ↔ name = mainRef ∧ oid = objectOne := by
  rw [oneRef, lookup_ofEntries (by decide)]
  simp

theorem packsAll_ofEntries {entries : List (RefName × OID)} {id : PackID}
    (distinct : (entries.map Prod.fst).Nodup)
    (contents : sampleGit.contents id = (entries.map Prod.snd).toFinset)
    (hex : RefNames.validOID id = true) : PacksAll sampleGit (insertAll entries ∅) id := by
  refine ⟨fun oid => ?_, hex⟩
  simp only [ReachedFrom, reach_sampleGit, lookup_ofEntries distinct, contents,
    mem_toFinset, mem_map]
  constructor
  · rintro ⟨⟨name, tip⟩, member, rfl⟩
    exact ⟨name, _, member, rfl⟩
  · rintro ⟨name, tip, member, rfl⟩
    exact ⟨(name, _), member, rfl⟩

theorem packsAll_both : PacksAll sampleGit bothRefs packBoth :=
  packsAll_ofEntries (by decide) rfl (by decide)

theorem packsAll_one : PacksAll sampleGit oneRef packOne :=
  packsAll_ofEntries (by decide) rfl (by decide)

theorem mem_bothRefs : name ∈ bothRefs ↔ name = mainRef ∨ name = otherRef := by
  simp [bothRefs, mem_insertAll, Finmap.notMem_empty]

def sampleSource : Source sampleGit where
  refs := bothRefs
  named := by
    intro name member
    rcases mem_bothRefs.mp member with rfl | rfl <;> decide
  objectIDs := by
    intro name oid found
    rcases lookup_bothRefs.mp found with ⟨-, rfl⟩ | ⟨-, rfl⟩ <;> decide
  coexist := by
    intro parent parentMember name member
    rcases mem_bothRefs.mp parentMember with rfl | rfl <;>
      rcases mem_bothRefs.mp member with rfl | rfl <;> decide

def sampleRepack (id : PackID) : Repack := ⟨id, 0, 0, "", ""⟩

def importedBody : Body := sourceBody bothRefs mainRef (sampleRepack packBoth)

def importedWorld : World sampleGit :=
  ((created mainRef 1).putPack (packEntry (sampleRepack packBoth))).commit 0
    (.importRefs importedBody) 2 importedBody

theorem reached_imported (h : Hashing) :
    Reached h (start mainRef 1)
      (advance (start mainRef 1) 0 importedWorld (.landed (.importRefs importedBody) importedBody)) := by
  have built : importBody sampleSource mainRef (sampleRepack packBoth) = .ok importedBody := rfl
  have begun : Reached h (start mainRef 1 : System sampleGit) (start mainRef 1) := reached_start _
  have imported := begun.take 0 rfl (.importSource built fun _ => packsAll_both) trivial
  have ready := (imported.again .importUpload trivial).again .importReady trivial
  exact Reached.commit ready (fun _ => none) 2 .applied rfl rfl (by decide)

def singleRequest (u : UpdateCommand) (named : RefNames.validRefName u.refname = true)
    (old : RefNames.isHexOID u.oldOID = true) (new : RefNames.isHexOID u.newOID = true)
    (effective : ¬ (u.oldOID = nullOID ∧ u.newOID = nullOID)) :
    ReceivePack.Request sampleGit.checkRefFormat where
  updates := [u]
  isAtomic := false
  distinct := by simp
  wellFormed := by
    intro v member
    cases List.mem_singleton.mp member
    exact ⟨named, old, new, effective⟩

def bareOf (refs : RefMap) : Bare := ⟨refs, {objectOne, objectTwo}⟩

def pushedBody (current : Body) (updates : Updates) (id : PackID) : Body :=
  draftBody current (.inline (applyUpdates updates current.refs)) (sampleRepack id) ⟨none, ""⟩

def inlinePlan (base : Root) (updates : Updates) (id : PackID) : Plan :=
  ⟨base, updates, [], applyUpdates updates base.body.refs, some (packEntry (sampleRepack id)),
    pushedBody base.body updates id⟩

/-! Which maintenance commits keep the refs of the root they replace. -/

/-- The writers that have no ref updates of their own. -/
def Job.maintains : Job git → Bool
  | .push _ _ => false
  | .importRefs _ => false
  | _ => true

def Job.rebuilds : Job git → Bool
  | .repack _ _ => true
  | .compact _ _ => true
  | _ => false

/-- The new root lists the refs of the root it replaced and has its default branch. -/
def Preserves (h : Hashing) (σ : World git) (link : Link git) : Prop :=
  RefStore.list h σ.objects link.next.body = RefStore.list h σ.objects link.prev.body ∧
    link.next.body.defaultBranch = link.prev.body.defaultBranch

theorem list_congr {objects : Objects} {left right : Body} (refs : left.refs = right.refs)
    (shards : left.refShards = right.refShards) (sharding : left.refSharding = right.refSharding) :
    list h objects left = list h objects right := by
  simp only [list, refs, shards, sharding]

variable {body draft stored : Body}

theorem Sound.stable (sound : Sound h σ body)
    (marshalled : marshalBody draft = .ok stored) (refs : draft.refs = body.refs)
    (branch : draft.defaultBranch = body.defaultBranch) :
    stored.refs = body.refs ∧ stored.defaultBranch = body.defaultBranch := by
  obtain ⟨-, -, rfl⟩ := marshalBody_ok marshalled
  simp only [refs, branch]
  exact ⟨decodeRefs_encodeRefs sound.names, sound.branch⟩

theorem Sound.copied (sound : Sound h σ body)
    (marshalled : marshalBody draft = .ok stored) (refs : draft.refs = body.refs)
    (branch : draft.defaultBranch = body.defaultBranch)
    (shards : draft.refShards = body.refShards) (sharding : draft.refSharding = body.refSharding) :
    list h σ.objects stored = list h σ.objects body ∧
      stored.defaultBranch = body.defaultBranch := by
  obtain ⟨sameRefs, sameBranch⟩ := sound.stable marshalled refs branch
  have shape := (marshalBody_ok marshalled).2.2
  refine ⟨list_congr sameRefs ?_ ?_, sameBranch⟩
  · rw [shape, ← shards]
  · rw [shape, ← sharding]

variable {prev draft stored : Body}

theorem Global.rebuilt_iff (global : Global h σ)
    (sound : Sound h σ prev) (marshalled : marshalBody draft = .ok stored)
    (refs : draft.refs = prev.refs) (branch : draft.defaultBranch = prev.defaultBranch)
    (shards : draft.refShards = []) :
    (list h σ.objects stored = list h σ.objects prev ∧
      stored.defaultBranch = prev.defaultBranch) ↔ prev.refShards = [] := by
  obtain ⟨sameRefs, sameBranch⟩ := sound.stable marshalled refs branch
  have inline : stored.refShards = [] := by
    rw [(marshalBody_ok marshalled).2.2]
    exact shards
  have listed : list h σ.objects stored = .ok prev.refs := by
    rw [list_inline inline, sameRefs]
  constructor
  · rintro ⟨same, -⟩
    by_contra sharded
    have empty : prev.refs = ∅ := by
      rcases validateBody_ok sound.valid with ⟨none, -⟩ | ⟨-, empty, -⟩
      · exact absurd none sharded
      · exact empty
    have lost : list h σ.objects prev = .ok ∅ := by rw [← same, listed, empty]
    exact list_ne_empty global.addressed sound.resolves sharded lost rfl
  · intro none
    exact ⟨by rw [listed, list_inline none], sameBranch⟩

attribute [local simp] Job.rebuilds

theorem Global.preserves_iff (global : Global h σ) {link : Link git} (member : link ∈ σ.links)
    (maintains : link.job.maintains = true) :
    Preserves h σ link ↔ (link.job.rebuilds = true → link.prev.body.refShards = []) := by
  have linked := global.linked link member
  have sound := global.sound (global.chained.prev_mem member)
  have kept := linked.sound sound
  obtain ⟨trailer, built⟩ := linked.body_built
  have ok := linked.job
  have based := linked.based
  unfold Preserves
  generalize link.job = job at maintains built ok based
  cases job with
  | push p plan | importRefs body => cases maintains
  | repack m0 input =>
    simpa using global.rebuilt_iff sound built rfl rfl rfl
  | compact m0 input =>
    simpa using global.rebuilt_iff sound built.2 rfl rfl rfl
  | bundle fresh =>
    obtain ⟨bundles, -, marshalled⟩ := built
    simpa using sound.copied marshalled rfl rfl rfl rfl
  | backfill m0 => simpa using sound.copied built rfl rfl rfl rfl
  | reshard start =>
    obtain rfl := based start rfl
    obtain ⟨-, inline, refs, written⟩ := ok
    have shape := (marshalBody_ok built.2).2.2
    have shards : link.next.body.refShards = (reshard h link.prev.body.refs).2 := by
      rw [shape]
      rfl
    have lays : Lays h σ.objects link.next.body.refShards link.prev.body.refs := by
      rw [shards]
      exact reshard_lays sound.names written
    have sharded : link.next.body.refShards ≠ [] := shards ▸ reshard_ne_nil refs
    simp only [Job.rebuilds, Bool.false_eq_true, false_implies, iff_true]
    refine ⟨?_, ?_⟩
    · rw [lays.list_body kept.valid sharded, list_inline inline]
    · rw [shape]
      exact sound.branch

/-- A maintenance commit keeps the effective refs and the default branch of the root it
replaces, unless it is a repack or a compaction over a sharded root; those lose them. -/
theorem maintenance_preserves_refs_iff (defaultBranch : RefName) (version : Nat)
    (valid : Utf8.Valid defaultBranch)
    (events : List (Event (System git) (ThreadId × Label))) (s : System git)
    (run : Run (Step h) (start defaultBranch version) events s) :
    ∀ link ∈ s.shared.links, link.job.maintains = true →
      (Preserves h s.shared link ↔
        (link.job.rebuilds = true → link.prev.body.refShards = [])) := by
  intro link member maintains
  exact (run_safe valid run).global.preserves_iff member maintains

/-! A repack that started before a reshard and commits after it. -/

def sampleMerge : MergeInput :=
  ⟨[canonicalPackKey packBoth], packEntry (sampleRepack packBoth), ⟨"", "", 0⟩, ⟨"", "", 0⟩, [],
    "v00000002"⟩

def shardedBody : Body := reshardBody spelledHashing importedBody

def strippedBody : Body := buildMergedBody shardedBody sampleMerge

def shardsPut : World sampleGit :=
  { importedWorld with
    objects := putShards (RefStore.reshard spelledHashing bothRefs).1 importedWorld.objects }

def overtakenWorld : World sampleGit :=
  (shardsPut.commit 2 (.reshard importedWorld.root) 3 shardedBody).commit 1
    (.repack importedBody sampleMerge) 4 strippedBody

theorem reached_overtaken :
    ∃ s : System sampleGit, Reached spelledHashing (start mainRef 1) s ∧ s.shared = overtakenWorld := by
  have made : RepackOf sampleGit importedBody sampleMerge := ⟨by decide, rfl, packsAll_both, rfl⟩
  have read : unmarshalBody importedWorld.root.body = .ok importedBody := rfl
  have refs : importedBody.refs ≠ ∅ := by decide
  have snapshot := (reached_imported spelledHashing).take 1 rfl (.snapshot read) trivial
  have uploaded :=
    (snapshot.again (.repack refs (by decide) made) trivial).again .uploadRepack trivial
  have started := uploaded.take 2 rfl (.startReshard read rfl refs) trivial
  have ready := (Reached.putAll started).again .reshardReady trivial
  have resharded := Reached.commit ready (fun _ => none) 3 .applied
    (show _ = Except.ok shardedBody by decide) rfl (by decide)
  have waiting := resharded.resume (t := 1)
    (show _ = Phase.ready (.repack importedBody sampleMerge) from rfl)
  have landed := Reached.commit waiting (fun _ => none) 4 .applied
    (show _ = Except.ok strippedBody by decide) rfl (by decide)
  exact ⟨_, landed, rfl⟩

theorem repack_over_reshard_drops_refs :
    ∃ events s, Run (Step spelledHashing) (start mainRef 1 : System sampleGit) events s ∧
      ∃ link ∈ s.shared.links, link.job.maintains = true ∧
        RefStore.list spelledHashing s.shared.objects link.prev.body = .ok bothRefs ∧
        RefStore.list spelledHashing s.shared.objects link.next.body = .ok ∅ := by
  obtain ⟨s, ⟨events, run, -⟩, shared⟩ := reached_overtaken
  refine ⟨events, s, run, ?_⟩
  rw [shared]
  exact ⟨_, mem_cons_self, rfl, by decide +kernel, by decide⟩

theorem maintenance_preserves_refs_sample :
    ∃ events s, Run (Step spelledHashing) (start mainRef 1 : System sampleGit) events s ∧
      (∃ link ∈ s.shared.links, link.job.maintains = true ∧ Preserves spelledHashing s.shared link) ∧
      ∃ link ∈ s.shared.links, link.job.maintains = true ∧
        ¬ Preserves spelledHashing s.shared link := by
  obtain ⟨s, ⟨events, run, -⟩, shared⟩ := reached_overtaken
  have decided := maintenance_preserves_refs_iff mainRef 1 (by decide) events s run
  rw [shared] at decided
  refine ⟨events, s, run, ?_⟩
  rw [shared]
  refine ⟨⟨_, mem_cons_of_mem _ mem_cons_self, rfl, ?_⟩,
    ⟨_, mem_cons_self, rfl, ?_⟩⟩
  · exact (decided _ (mem_cons_of_mem _ mem_cons_self) rfl).mpr (by simp)
  · intro preserved
    have inline := (decided _ mem_cons_self rfl).mp preserved rfl
    exact absurd inline (by decide)

/-! The effective refs of every root, and what each kind of commit does to them. -/

/-- `body` lists `refs`, and its shards, if it has any, hold exactly them. -/
structure Lists (h : Hashing) (σ : World git) (body : Body) (refs : RefMap) : Prop where
  listed : RefStore.list h σ.objects body = .ok refs
  names : ∀ name ∈ refs, Utf8.Valid name
  lays : body.refShards ≠ [] → Lays h σ.objects body.refShards refs

/-- A push over a sharded root names its refs in UTF-8. -/
def NamesFit (link : Link git) : Prop :=
  ∀ p plan, link.job = .push p plan → link.prev.body.refShards ≠ [] →
    ∀ u ∈ accepted p.statuses, Utf8.Valid u.refname

variable {body : Body} {refs before : RefMap}

theorem Lists.unique {left right : RefMap} (first : Lists h σ body left)
    (second : Lists h σ body right) : left = right :=
  Except.ok.inj (first.listed.symm.trans second.listed)

theorem Sound.lists_inline (sound : Sound h σ body) (inline : body.refShards = []) :
    Lists h σ body body.refs :=
  ⟨list_inline inline, sound.names, fun sharded => absurd inline sharded⟩

theorem lists_of_lays (sound : Sound h σ body) (sharded : body.refShards ≠ [])
    (lays : Lays h σ.objects body.refShards refs) (names : ∀ name ∈ refs, Utf8.Valid name) :
    Lists h σ body refs :=
  ⟨lays.list_body sound.valid sharded, names, fun _ => lays⟩

theorem Lists.congr {other : Body} (lists : Lists h σ body refs)
    (same : list h σ.objects other = list h σ.objects body)
    (shards : other.refShards = body.refShards) : Lists h σ other refs :=
  ⟨same.trans lists.listed, lists.names, by rw [shards]; exact lists.lays⟩

/-- The refs a push leaves: what its updates make of the refs of the root it replaced.
Inline, the names go through JSON once more. -/
structure Pushed (h : Hashing) (σ : World git) (plan : Plan) (before after : RefMap) : Prop where
  lists : Lists h σ plan.body after
  effective : plan.effective = applyUpdates plan.updates before
  values : ∀ name oid, after.lookup name = some oid →
    ∃ written, plan.effective.lookup written = some oid ∧ Utf8.coerce written = name
  exactly : (∀ u ∈ plan.updates, Utf8.Valid u.1) → after = applyUpdates plan.updates before

theorem lookup_valid (names : ∀ name ∈ refs, Utf8.Valid name) {name : RefName} {oid : OID}
    (found : refs.lookup name = some oid) :
    ∃ written, refs.lookup written = some oid ∧ Utf8.coerce written = name :=
  ⟨name, found, names name (Finmap.mem_of_lookup_eq_some found)⟩

theorem Planned.pushed {plan : Plan} (planned : Planned h σ plan) (sound : Sound h σ plan.body)
    (stored : ∀ w ∈ plan.writes, σ.objects w.key = some w.contents)
    (lists : Lists h σ plan.base.body before)
    (valid : plan.base.body.refShards ≠ [] → ∀ u ∈ plan.updates, Utf8.Valid u.1) :
    ∃ after, Pushed h σ plan before after := by
  obtain ⟨objects, bareRefs, made, patch, stage, grows, resolves, prepared, -⟩ := planned.prepared
  rcases stage_ok prepared.staged with ⟨inline, rfl⟩ | ⟨sharded, writes, next, rfl, staged⟩
  · have same : before = plan.base.body.refs :=
      Except.ok.inj (lists.listed.symm.trans (list_inline inline))
    have effective : plan.effective = applyUpdates plan.updates before := by
      rw [same]
      exact (Except.ok.inj prepared.effective).symm
    rcases prepared.body with ⟨empty, -, marshalled⟩ | ⟨-, -, -, marshalled⟩
    all_goals
      have shape := (marshalBody_ok marshalled).2.2
      have inlineNext : plan.body.refShards = [] := by rw [shape]; rfl
    · have none : plan.effective = ∅ := by simpa [effective, same] using empty
      have refs : plan.body.refs = ∅ := by
        rw [shape]
        exact decodeRefs_encodeRefs_eq_empty.mpr rfl
      refine ⟨∅, refs ▸ sound.lists_inline inlineNext, effective, by simp, fun _ => ?_⟩
      rw [← effective, none]
    · have refs : plan.body.refs = decodeRefs (encodeRefs plan.effective) := by
        rw [shape, effective, same]
        rfl
      refine ⟨_, refs ▸ sound.lists_inline inlineNext, effective,
        fun name oid found => lookup_decodeRefs_encodeRefs found, ?_⟩
      intro fit
      rw [effective]
      exact decodeRefs_encodeRefs (valid_applyUpdates lists.names fun u member _ => fit u member)
  · have fit : ValidUpserts plan.updates := fun u member _ => valid sharded u member
    have names := valid_applyUpdates lists.names fit
    have written : plan.writes = writes := prepared.writes
    have effective : plan.effective = applyUpdates plan.updates before := by
      obtain ⟨listed, found, merged⟩ := bind_ok prepared.effective
      have again := list_grows grows resolves (mapError_ok found)
      cases Except.ok.inj (lists.listed.symm.trans again)
      exact (Except.ok.inj merged).symm
    have lays : Lays h σ.objects next (applyUpdates plan.updates before) :=
      ((lists.lays sharded).earlier resolves grows).staged lists.names fit
        (stageSharded_staged resolves staged) grows (written ▸ stored)
    rcases prepared.body with ⟨empty, -, marshalled⟩ | ⟨occupied, -, -, marshalled⟩
    all_goals have shape := (marshalBody_ok marshalled).2.2
    · have gone : next = [] := by simpa using empty
      have none : applyUpdates plan.updates before = ∅ := lays_nil (gone ▸ lays)
      have inlineNext : plan.body.refShards = [] := by rw [shape]; rfl
      have refs : plan.body.refs = ∅ := by
        rw [shape]
        exact decodeRefs_encodeRefs_eq_empty.mpr rfl
      exact ⟨∅, refs ▸ sound.lists_inline inlineNext, effective, by simp, fun _ => none.symm⟩
    · have shards : plan.body.refShards = next := by rw [shape]; rfl
      have kept : next ≠ [] := by simpa using occupied
      refine ⟨applyUpdates plan.updates before, ?_, effective, ?_, fun _ => rfl⟩
      · exact lists_of_lays sound (shards ▸ kept) (shards ▸ lays) names
      · intro name oid found
        rw [effective]
        exact lookup_valid names found

/-- What a commit makes of the refs of the root it replaces. The field by field rebuild
of repack and compaction carries over the inline refs only. -/
def Follows (h : Hashing) (σ : World git) (prev : Root) (before after : RefMap) : Job git → Prop
  | .push _ plan => Pushed h σ plan before after
  | .importRefs body => after = body.refs
  | .repack _ _ => after = prev.body.refs
  | .compact _ _ => after = prev.body.refs
  | _ => after = before

theorem Sound.rebuilt (sound : Sound h σ prev) (kept : Sound h σ stored)
    (marshalled : marshalBody draft = .ok stored) (refs : draft.refs = prev.refs)
    (branch : draft.defaultBranch = prev.defaultBranch) (shards : draft.refShards = []) :
    Lists h σ stored prev.refs := by
  have inline : stored.refShards = [] := by
    rw [(marshalBody_ok marshalled).2.2]
    exact shards
  have lists := kept.lists_inline inline
  rwa [(sound.stable marshalled refs branch).1] at lists

theorem Imported.inline (imported : Imported git body) : body.refShards = [] := by
  obtain ⟨source, defaultBranch, made, built, -⟩ := imported
  rw [(marshalBody_ok (importBody_ok built).marshalled).2.2]
  unfold sourceBody
  split <;> rfl

theorem Global.follows (global : Global h σ) {link : Link git} (member : link ∈ σ.links)
    (lists : Lists h σ link.prev.body before) (fit : NamesFit link) :
    ∃ after, Lists h σ link.next.body after ∧ Follows h σ link.prev before after link.job := by
  have linked := global.linked link member
  have sound := global.sound (global.chained.prev_mem member)
  have kept := linked.sound sound
  have stored := linked.stored
  have preserved := global.preserves_iff member
  obtain ⟨trailer, built⟩ := linked.body_built
  have ok := linked.job
  have based := linked.based
  unfold NamesFit at fit
  generalize link.job = job at built ok based stored preserved fit
  cases job with
  | push p plan =>
    have same : plan.base = link.prev := based plan.base rfl
    have valid : plan.base.body.refShards ≠ [] → ∀ u ∈ plan.updates, Utf8.Valid u.1 := by
      intro sharded u inside
      rw [ok.2.2.1] at inside
      obtain ⟨command, accepted, rfl⟩ := mem_map.mp inside
      exact fit p plan rfl (same ▸ sharded) command accepted
    rw [built.2] at kept ⊢
    obtain ⟨after, pushed⟩ := ok.2.1.pushed kept stored (same ▸ lists) valid
    exact ⟨after, pushed.lists, pushed⟩
  | importRefs body =>
    rw [built.2] at kept ⊢
    exact ⟨body.refs, kept.lists_inline ok.1.inline, rfl⟩
  | repack m0 input => exact ⟨_, sound.rebuilt kept built rfl rfl rfl, rfl⟩
  | compact m0 input => exact ⟨_, sound.rebuilt kept built.2 rfl rfl rfl, rfl⟩
  | bundle fresh =>
    obtain ⟨bundles, -, marshalled⟩ := built
    have same := ((preserved rfl).mpr (by simp)).1
    exact ⟨before, lists.congr same (by rw [(marshalBody_ok marshalled).2.2]), rfl⟩
  | backfill m0 =>
    have same := ((preserved rfl).mpr (by simp)).1
    exact ⟨before, lists.congr same (by rw [(marshalBody_ok built).2.2]), rfl⟩
  | reshard start =>
    obtain rfl := based start rfl
    obtain ⟨-, inline, refs, written⟩ := ok
    have shards : link.next.body.refShards = (reshard h link.prev.body.refs).2 := by
      rw [(marshalBody_ok built.2).2.2]
      rfl
    have target : before = link.prev.body.refs := lists.unique (sound.lists_inline inline)
    have lays : Lays h σ.objects link.next.body.refShards before := by
      rw [shards, target]
      exact reshard_lays sound.names written
    exact ⟨before, lists_of_lays kept (shards ▸ reshard_ne_nil refs) lays lists.names, rfl⟩

/-- If pushes over sharded roots name their refs in UTF-8, every root lists its refs. -/
theorem Global.lists (global : Global h σ) (empty : σ.origin.body.refShards = [])
    (fit : ∀ link ∈ σ.links, NamesFit link) {root : Root} (member : root ∈ σ.history) :
    ∃ refs, Lists h σ root.body refs := by
  refine global.chained.invariant (P := fun root => ∃ refs, Lists h σ root.body refs) ?_ ?_
    root member
  · exact ⟨_, global.origin.lists_inline empty⟩
  · rintro link inside ⟨before, lists⟩
    obtain ⟨after, listed, -⟩ := global.follows inside lists (fit link inside)
    exact ⟨after, listed⟩

end BucketVcs.Writers
