import BucketVcs.Reachability
import BucketVcs.Writers.Serving

/-! The writers with the index objects they make: pushes and imports index the pack they
upload, a push extends the delta chain, and maintenance puts the index of its start snapshot
over the root it replaces. -/

namespace BucketVcs.Writers

open Manifest RefStore Importer ReceivePack Maintenance Reachability RefNames Transition List

variable {git : Git}

/-- `git rev-list` from the new tips, without what any ref reached before the push. -/
structure NewCommits (commits : Commits git) (before : RefMap) (updates : Updates)
    (newOIDs : List OID) : Prop where
  distinct : newOIDs.Nodup
  exactly : ∀ oid, oid ∈ newOIDs ↔ commits.isCommit oid = true ∧
    (∃ update ∈ updates, deletes update.2 = false ∧ Reach git update.2 oid) ∧
    ¬ ReachedFrom git before oid

/-- The two indexes of a pack, as the builders make them with these ref tips. -/
structure IndexesPack (commits : Commits git) (id : PackID) (refs : RefMap) (table : ObjectMap)
    (graph : CommitGraph) : Prop where
  table : buildObjectMap commits id = .ok table
  graph : buildCommitGraph commits id refs = .ok graph

def Hashes (commits : Commits git) (store : Artifacts) (refs : RefMap) (made : Repack) : Prop :=
  ∃ table graph, IndexesPack commits made.packID refs table graph ∧
    made.objectMapHash = store.mapHash table ∧ made.commitGraphHash = store.graphHash graph

/-- The patch is the delta made of the push over the current root. -/
def Patches (h : Hashing) (commits : Commits git) (store : Artifacts) (σ : World git)
    (p : Push git) (id : PackID) (patch : Patch) : Prop :=
  ∃ before newOIDs, RefStore.list h σ.objects σ.root.body = .ok before ∧
    NewCommits commits before (refUpdates (accepted p.statuses)) newOIDs ∧
    makeDelta commits store σ.root.body (accepted p.statuses) newOIDs (parseOID id).toList
      p.first.manifestVersion = .ok patch

/-- What a writer that comes to this phase has made: its index objects are the builders'. -/
def Phase.Crafted (h : Hashing) (commits : Commits git) (store : Artifacts) (σ : World git) :
    Phase git → Prop
  | .prepared p plan => ∃ bare made patch,
      Importer.prepare h git σ.objects σ.root bare (refUpdates (ReceivePack.accepted p.statuses))
        made patch = .ok plan ∧
      (plan.pack.isSome → Hashes commits store plan.effective made ∧
        Patches h commits store σ p made.packID patch)
  | .importing _ body => ∃ (source : Source git) (defaultBranch : RefName) (made : Repack),
      importBody source defaultBranch made = .ok body ∧
        (source.refs ≠ ∅ → Hashes commits store source.refs made)
  | .repacked m0 input => ∃ table graph,
      IndexesPack commits input.newPack.packID m0.refs table graph ∧
        input.newObjectMap = objectMapRef store table ∧
        input.newCommitGraph = commitGraphRef store graph
  | .ready (.compact m0 input) => ∃ id graph, PacksAll git m0.refs id ∧
      buildCommitGraph commits id m0.refs = .ok graph ∧
      input.newCommitGraph = commitGraphRef store graph
  | _ => True

/-- A step of a writer that makes its index objects with the builders. -/
def IndexMove (h : Hashing) (commits : Commits git) (store : Artifacts) (t : ThreadId)
    (σ : World git) (phase : Phase git) (l : Label) (σ' : World git) (phase' : Phase git) : Prop :=
  Move h t σ phase l σ' phase' ∧ phase'.Crafted h commits store σ

abbrev IndexStep (h : Hashing) (commits : Commits git) (store : Artifacts) :
    System git → ThreadId × Label → System git → Prop :=
  Interleave.Step (IndexMove h commits store)

/-! What a job carries with it. -/

def PlanIndexed (commits : Commits git) (store : Artifacts) (p : Push git) (plan : Plan) : Prop :=
  ∀ pack, plan.pack = some pack → ∃ table graph newOIDs packs version patch,
    IndexesPack commits pack.packID plan.effective table graph ∧
      makeDelta commits store plan.base.body (accepted p.statuses) newOIDs packs version =
        .ok patch ∧
      plan.body.indexes = ⟨some (objectMapRef store table), some (commitGraphRef store graph),
        patchReachability plan.base.body.indexes.reachability patch⟩

def ImportIndexed (commits : Commits git) (store : Artifacts) (body : Body) : Prop :=
  (body.packs = [] ∧ body.indexes = ⟨none, none, none⟩) ∨
    ∃ pack refs table graph, body.packs = [pack] ∧
      IndexesPack commits pack.packID refs table graph ∧
      body.indexes = ⟨some (objectMapRef store table), some (commitGraphRef store graph), none⟩

def Job.Indexed (commits : Commits git) (store : Artifacts) : Job git → Prop
  | .push p plan => PlanIndexed commits store p plan
  | .importRefs body => ImportIndexed commits store body
  | .repack m0 input => ∃ table graph,
      IndexesPack commits input.newPack.packID m0.refs table graph ∧
        input.newObjectMap = objectMapRef store table ∧
        input.newCommitGraph = commitGraphRef store graph
  | .compact m0 input => m0.packs ≠ [] ∧ input.consumedHashes = snapshotDeltas m0 ∧
      ∃ id graph, PacksAll git m0.refs id ∧ buildCommitGraph commits id m0.refs = .ok graph ∧
        input.newCommitGraph = commitGraphRef store graph
  | _ => True

def Phase.Indexed (commits : Commits git) (store : Artifacts) : Phase git → Prop
  | .prepared p plan => PlanIndexed commits store p plan
  | .importing _ body => ImportIndexed commits store body
  | .repacked m0 input => (Job.repack m0 input).Indexed commits store
  | .ready job => job.Indexed commits store
  | .publishing job _ _ _ => job.Indexed commits store
  | .landed job _ => job.Indexed commits store
  | _ => True

variable {h : Hashing} {commits : Commits git} {store : Artifacts} {σ σ' : World git}
  {t : ThreadId}

variable {p : Push git} {plan : Plan} {body : Body} {defaultBranch : RefName} {version : Nat}
  {events : List (Event (System git) (ThreadId × Label))} {s : System git} {m0 prev stored : Body}
  {link : Link git} {root : Root} {after : RefMap} {job : Job git}

theorem planIndexed_of_crafted (crafted : (Phase.prepared p plan).Crafted h commits store σ) :
    PlanIndexed commits store p plan := by
  obtain ⟨bare, made, patch, built, indexed⟩ := crafted
  obtain ⟨base, -, stage, prepared⟩ := prepare_ok built
  intro pack packed
  rcases prepared.body with ⟨-, none, -⟩ | ⟨-, some, -, marshalled⟩
  · cases none.symm.trans packed
  · cases some.symm.trans packed
    obtain ⟨⟨table, graph, indexes, mapHash, graphHash⟩, before, newOIDs, -, -, delta⟩ :=
      indexed (by simp [some])
    refine ⟨table, graph, newOIDs, _, _, patch, indexes, base ▸ delta, ?_⟩
    rw [(marshalBody_ok marshalled).2.2]
    simp only [draftBody, mapHash, graphHash]
    rfl

theorem importIndexed_of_crafted {pack : Option PackEntry}
    (crafted : (Phase.importing pack body).Crafted h commits store σ) :
    ImportIndexed commits store body := by
  obtain ⟨source, defaultBranch, made, built, indexed⟩ := crafted
  have shape := (marshalBody_ok (importBody_ok built).marshalled).2.2
  by_cases empty : source.refs = ∅
  · refine .inl ?_
    rw [shape]
    simp [sourceBody, empty]
  · obtain ⟨table, graph, indexes, mapHash, graphHash⟩ := indexed empty
    refine .inr ⟨packEntry made, source.refs, table, graph, ?_, indexes, ?_⟩ <;> rw [shape]
    · simp [sourceBody, empty]
    · simp only [sourceBody, if_neg empty, mapHash, graphHash]
      rfl

theorem indexed_failed (job : Job git) (reason : String) :
    (job.failed reason).Indexed commits store := by
  cases job <;> trivial

theorem indexed_done (job : Job git) (body : Body) : (job.done body).Indexed commits store := by
  cases job <;> trivial

theorem IndexMove.keeps {phase phase' : Phase git} {l : Label}
    (moved : IndexMove h commits store t σ phase l σ' phase') (known : phase.Indexed commits store) :
    phase'.Indexed commits store ∧
      ∀ link ∈ σ'.links, link ∈ σ.links ∨ link.job.Indexed commits store := by
  obtain ⟨moved, crafted⟩ := moved
  have same {σ' : World git} (links : σ'.links = σ.links) :
      ∀ link ∈ σ'.links, link ∈ σ.links ∨ link.job.Indexed commits store :=
    fun link member => .inl (links ▸ member)
  cases moved with
  | prepare => exact ⟨planIndexed_of_crafted crafted, same rfl⟩
  | importSource => exact ⟨importIndexed_of_crafted crafted, same rfl⟩
  | repack => exact ⟨crafted, same rfl⟩
  | compact refs packs consumed => exact ⟨⟨packs, consumed, crafted⟩, same rfl⟩
  | upload | importUpload | uploadRepack => exact ⟨known, same (putPack_links _ _)⟩
  | nothingToUpload | importReady | call | putShard | casRefused => exact ⟨known, same rfl⟩
  | callFails | giveUp | commitFails => exact ⟨indexed_failed _ _, same rfl⟩
  | done => exact ⟨indexed_done _ _, same rfl⟩
  | @casTaken job prev body version reply =>
    refine ⟨?_, fun link member => ?_⟩
    · cases reply with
      | applied => exact known
      | mismatch => exact known
      | failed text => exact indexed_failed _ _
    · rcases mem_cons.mp member with rfl | older
      · exact .inr known
      · exact .inl older
  | _ => exact ⟨trivial, same rfl⟩

theorem run_indexed (run : Run (IndexStep h commits store) (start defaultBranch version) events s) :
    ∀ link ∈ s.shared.links, link.job.Indexed commits store := by
  refine (run.invariant (I := fun s => (∀ t, (s.threads t).Indexed commits store) ∧
    ∀ link ∈ s.shared.links, link.job.Indexed commits store) ?_ ?_
    (show ∀ e ∈ events, (fun _ => True) e from fun _ _ => trivial)).2
  · exact ⟨fun _ => trivial, fun link member => absurd member not_mem_nil⟩
  · rintro s ⟨t, l⟩ s' ⟨threads, links⟩ - step
    obtain ⟨moved, others⟩ := step.moved
    obtain ⟨here, committed⟩ := moved.keeps (threads t)
    refine ⟨fun other => ?_, fun link member => ?_⟩
    · by_cases mover : other = t
      · exact mover ▸ here
      · rw [others other mover]
        exact threads other
    · rcases committed link member with older | new
      · exact links link older
      · exact new

theorem run_writers {first : System git} (run : Run (IndexStep h commits store) first events s) :
    Run (Step h) first events s :=
  run.mono fun _ _ _ step => step.mono fun _ _ _ _ _ _ moved => moved.1

/-! What a commit makes of the index of the root it replaces. -/

/-- What the index references of a body lead to. -/
structure Index where
  graph : CommitGraph
  table : ObjectMap
  deltas : List Delta

/-- The references of a body lead to the index; without one the body has no pack either. -/
def Refers (store : Artifacts) (body : Body) : Option Index → Prop
  | none => body.indexes = ⟨none, none, none⟩ ∧ body.packs = []
  | some index => Described store body index.graph index.table index.deltas

def deltasOf : Option Index → List Delta
  | none => []
  | some index => index.deltas

/-- The deltas that a maintenance run started at `m0` leaves of a chain. -/
def survivors (store : Artifacts) (m0 : Body) (deltas : List Delta) : List Delta :=
  deltas.filter fun delta => store.deltaHash delta ∉ snapshotDeltas m0

/-- The chain after a push: as it was, if there was nothing to record or no index to extend,
or with the delta of the push at its end. -/
def Extends (commits : Commits git) (p : Push git) (before : Option Index) (after : List Delta) :
    Prop :=
  (after = deltasOf before ∧ (accepted p.statuses = [] ∨ before = none)) ∨
    ∃ known newOIDs packs,
      after = deltasOf before ++ [buildDelta commits known newOIDs (accepted p.statuses) packs]

def Reindexes (commits : Commits git) (store : Artifacts) (before after : Option Index) :
    Job git → Prop
  | .push p plan => (plan.pack = none ∧ after = none) ∨
      ∃ pack index, plan.pack = some pack ∧ after = some index ∧
        IndexesPack commits pack.packID plan.effective index.table index.graph ∧
        Extends commits p before index.deltas
  | .importRefs body => (body.packs = [] ∧ after = none) ∨
      ∃ pack refs index, body.packs = [pack] ∧ after = some index ∧
        IndexesPack commits pack.packID refs index.table index.graph ∧ index.deltas = []
  | .repack m0 input => ∃ index, after = some index ∧
      IndexesPack commits input.newPack.packID m0.refs index.table index.graph ∧
      index.deltas = survivors store m0 (deltasOf before)
  | .compact m0 _ => ∃ old index id, before = some old ∧ after = some index ∧
      index.table = old.table ∧ PacksAll git m0.refs id ∧
      buildCommitGraph commits id m0.refs = .ok index.graph ∧
      index.deltas = survivors store m0 old.deltas
  | _ => after = before

variable {index before : Option Index} {P : Root → RefMap → Option Index → Prop}

theorem Refers.deltaRefs (refers : Refers store body index) :
    deltaRefs body = (deltasOf index).map (deltaRef store) := by
  cases index with
  | none =>
    rw [Reachability.deltaRefs, refers.1]
    rfl
  | some index => exact refers.chain

theorem snapshotDeltas_eq (body : Body) :
    snapshotDeltas body = (deltaRefs body).map IndexRef.hash := by
  unfold snapshotDeltas Reachability.deltaRefs
  cases body.indexes.reachability <;> rfl

theorem Refers.consumed (refers : Refers store body index) :
    snapshotDeltas body = (deltasOf index).map store.deltaHash := by
  rw [snapshotDeltas_eq, refers.deltaRefs, List.map_map]
  rfl

theorem Refers.survivors_eq (refers : Refers store m0 index) (deltas : List Delta) :
    survivors store m0 deltas = deltas.filter fun delta => delta ∉ deltasOf index := by
  apply filter_congr
  intro delta _
  simp only [refers.consumed, List.mem_map_of_injective store.deltaHash_injective]

theorem Refers.congr {other : Body} (refers : Refers store body index)
    (indexes : other.indexes = body.indexes) (packs : body.packs = [] → other.packs = []) :
    Refers store other index := by
  cases index with
  | none => exact ⟨indexes.trans refers.1, packs refers.2⟩
  | some index =>
    refine ⟨?_, ?_, ?_⟩
    · rw [indexes, refers.graph]
    · rw [indexes, refers.table]
    · rw [Reachability.deltaRefs, indexes]
      exact refers.chain

theorem chainRefs_trim (prev : Option ReachabilityRef) (consumed : List String) (base : String)
    (advance : Bool) : chainRefs (trimConsumedByHash prev consumed base advance) =
      (chainRefs prev).filter fun delta => delta.hash ∉ consumed := by
  cases prev <;> cases consumed <;> cases advance <;> simp [trimConsumedByHash, chainRefs]

theorem chainRefs_patch (prev : Option ReachabilityRef) (patch : Patch) :
    chainRefs (patchReachability prev patch) = chainRefs prev ++ patch.delta.toList := by
  unfold patchReachability
  cases patch.delta <;> cases prev <;> simp [chainRefs]

theorem filter_chain (m0 : Body) (deltas : List Delta) :
    (deltas.map (deltaRef store)).filter (fun ref => ref.hash ∉ snapshotDeltas m0) =
      (survivors store m0 deltas).map (deltaRef store) := by
  rw [List.filter_map]
  rfl

theorem Refers.none_of_commitGraph (refers : Refers store body index)
    (missing : body.indexes.commitGraph = none) : index = none := by
  cases index with
  | none => rfl
  | some index => cases missing.symm.trans refers.graph

theorem Refers.extended {newOIDs : List OID} {packs : List PackID} {patch : Patch}
    (refers : Refers store body before)
    (made : makeDelta commits store body (accepted p.statuses) newOIDs packs version = .ok patch) :
    ∃ deltas, Extends commits p before deltas ∧
      chainRefs (patchReachability body.indexes.reachability patch) =
        deltas.map (deltaRef store) := by
  have chain : chainRefs body.indexes.reachability = (deltasOf before).map (deltaRef store) :=
    refers.deltaRefs
  rw [chainRefs_patch, chain]
  rcases makeDelta_ok made with ⟨none, why⟩ | ⟨known, some⟩
  · refine ⟨deltasOf before, .inl ⟨rfl, why.imp_right refers.none_of_commitGraph⟩, ?_⟩
    rw [none, Option.toList_none, append_nil]
  · refine ⟨_, .inr ⟨known, newOIDs, packs, rfl⟩, ?_⟩
    rw [some, map_append]
    rfl

theorem Refers.pushed (refers : Refers store plan.base.body before) (planned : Planned h σ plan)
    (indexed : PlanIndexed commits store p plan) :
    ∃ after, Refers store plan.body after ∧
      Reindexes commits store before after (.push p plan) := by
  obtain ⟨objects, bareRefs, made, patch, stage, -, -, prepared, -⟩ := planned.prepared
  rcases prepared.body with ⟨-, unpacked, marshalled⟩ | ⟨-, packed, -, marshalled⟩
  · refine ⟨none, ?_, .inl ⟨unpacked, rfl⟩⟩
    rw [(marshalBody_ok marshalled).2.2]
    exact ⟨rfl, rfl⟩
  · obtain ⟨table, graph, newOIDs, packs, version, made', built, delta, indexes⟩ :=
      indexed _ packed
    obtain ⟨deltas, extended, chain⟩ := refers.extended delta
    refine ⟨some ⟨graph, table, deltas⟩, ⟨?_, ?_, ?_⟩,
      .inr ⟨_, _, packed, rfl, built, extended⟩⟩
    · rw [indexes]
    · rw [indexes]
    · rw [Reachability.deltaRefs, indexes]
      exact chain

theorem Refers.imported (indexed : ImportIndexed commits store body) :
    ∃ after, Refers store body after ∧
      Reindexes commits store before after (.importRefs body : Job git) := by
  rcases indexed with ⟨packs, indexes⟩ | ⟨pack, refs, table, graph, packs, built, indexes⟩
  · exact ⟨none, ⟨indexes, packs⟩, .inl ⟨packs, rfl⟩⟩
  · refine ⟨some ⟨graph, table, []⟩, ⟨?_, ?_, ?_⟩, .inr ⟨pack, refs, _, packs, rfl, built, rfl⟩⟩
    · rw [indexes]
    · rw [indexes]
    · rw [Reachability.deltaRefs, indexes]
      rfl

theorem Refers.merged {input : MergeInput} (refers : Refers store prev before)
    (consumed : input.consumedHashes = snapshotDeltas m0)
    (marshalled : marshalBody (buildMergedBody prev input) = .ok stored)
    (indexed : (Job.repack m0 input).Indexed commits store) :
    ∃ after, Refers store stored after ∧
      Reindexes commits store before after (.repack m0 input) := by
  obtain ⟨table, graph, built, newMap, newGraph⟩ := indexed
  refine ⟨some ⟨graph, table, survivors store m0 (deltasOf before)⟩, ⟨?_, ?_, ?_⟩,
    ⟨_, rfl, built, rfl⟩⟩ <;> rw [(marshalBody_ok marshalled).2.2]
  · exact congrArg some newGraph
  · exact congrArg some newMap
  · have chain := refers.deltaRefs
    show chainRefs (trimConsumedByHash _ _ _ _) = _
    rw [chainRefs_trim, consumed, ← filter_chain, ← chain]
    rfl

theorem Refers.compacted {input : CompactInput} (refers : Refers store prev before)
    (packs : prev.packs.length = m0.packs.length)
    (marshalled : marshalBody (buildCompactOnlyBody prev input) = .ok stored)
    (indexed : (Job.compact m0 input : Job git).Indexed commits store) :
    ∃ after, Refers store stored after ∧
      Reindexes commits store before after (.compact m0 input : Job git) := by
  obtain ⟨occupied, consumed, id, graph, packed, built, newGraph⟩ := indexed
  cases before with
  | none =>
    rw [refers.2] at packs
    exact absurd (length_eq_zero_iff.mp packs.symm) occupied
  | some old =>
    refine ⟨some ⟨graph, old.table, survivors store m0 old.deltas⟩, ⟨?_, ?_, ?_⟩,
      ⟨old, _, id, rfl, rfl, rfl, packed, built, rfl⟩⟩ <;> rw [(marshalBody_ok marshalled).2.2]
    · exact congrArg some newGraph
    · exact refers.table
    · show chainRefs (trimConsumedByHash _ _ _ _) = _
      rw [chainRefs_trim, consumed, ← filter_chain, ← refers.chain]
      rfl

/-- Every commit turns the index of the root it replaces into the index of its own. -/
theorem Global.reindexes (global : Global h σ) (member : link ∈ σ.links)
    (indexed : link.job.Indexed commits store) (refers : Refers store link.prev.body before) :
    ∃ after, Refers store link.next.body after ∧ Reindexes commits store before after link.job := by
  have linked := global.linked link member
  obtain ⟨trailer, built⟩ := linked.body_built
  have ok := linked.job
  have based := linked.based
  generalize link.job = job at built ok based indexed
  cases job with
  | push p plan =>
    have same : plan.base = link.prev := based plan.base rfl
    rw [built.2]
    rw [← same] at refers
    exact refers.pushed ok.2.1 indexed
  | importRefs body =>
    rw [built.2]
    exact Refers.imported indexed
  | repack m0 input => exact refers.merged ok.2.1.consumed built indexed
  | compact m0 input => exact refers.compacted built.1 built.2 indexed
  | bundle fresh =>
    obtain ⟨bundles, -, marshalled⟩ := built
    refine ⟨before, refers.congr ?_ fun none => ?_, rfl⟩ <;> rw [(marshalBody_ok marshalled).2.2]
    exact none
  | backfill m0 =>
    refine ⟨before, refers.congr ?_ fun none => ?_, rfl⟩ <;> rw [(marshalBody_ok built).2.2]
    simp [none]
  | reshard start =>
    obtain rfl := based start rfl
    refine ⟨before, refers.congr ?_ fun none => ?_, rfl⟩ <;> rw [(marshalBody_ok built.2).2.2]
    · rfl
    · exact none

/-- The state every run of the indexed writers leads to, as far as its history goes. -/
structure History (h : Hashing) (commits : Commits git) (store : Artifacts) (σ : World git) :
    Prop where
  global : Global h σ
  indexed : ∀ link ∈ σ.links, link.job.Indexed commits store
  origin : ∃ defaultBranch, σ.origin.body = createdBody defaultBranch

theorem run_history (valid : Utf8.Valid defaultBranch)
    (run : Run (IndexStep h commits store) (start defaultBranch version) events s) :
    History h commits store s.shared :=
  ⟨(run_safe valid (run_writers run)).global, run_indexed run, defaultBranch,
    by rw [run_origin (run_writers run)]⟩

/-- What the first root has and every commit keeps, over the refs and the index that each root
leads to, every root has. -/
theorem History.invariant (history : History h commits store σ)
    (fit : ∀ link ∈ σ.links, NamesFit link) (init : P σ.origin ∅ none)
    (keep : ∀ link ∈ σ.links, ∀ before after index next, Lists h σ link.prev.body before →
      Follows h σ link.prev before after link.job → Refers store link.prev.body index →
      Reindexes commits store index next link.job → P link.prev before index →
      P link.next after next) (member : root ∈ σ.history) :
    ∃ refs index, Lists h σ root.body refs ∧ Refers store root.body index ∧ P root refs index := by
  have global := history.global
  refine global.chained.invariant (P := fun root => ∃ refs index, Lists h σ root.body refs ∧
    Refers store root.body index ∧ P root refs index) ?_ ?_ root member
  · obtain ⟨defaultBranch, created⟩ := history.origin
    have lists : Lists h σ σ.origin.body ∅ := by
      have inline := global.origin.lists_inline (by rw [created]; rfl)
      rwa [created] at inline ⊢
    exact ⟨∅, none, lists, by rw [created]; exact ⟨rfl, rfl⟩, init⟩
  · rintro link inside ⟨before, index, lists, refers, holds⟩
    obtain ⟨after, listed, follows⟩ := global.follows inside lists (fit link inside)
    obtain ⟨next, referred, reindexes⟩ :=
      global.reindexes inside (history.indexed link inside) refers
    exact ⟨after, next, listed, referred,
      keep link inside before after index next lists follows refers reindexes holds⟩

def ObjectIDs (refs : RefMap) : Prop := ∀ name oid, refs.lookup name = some oid → validOID oid = true

theorem Pushed.objectIDs {before : RefMap} (pushed : Pushed h σ plan before after)
    (ok : JobOK h σ (.push p plan)) (valid : ObjectIDs before) : ObjectIDs after := by
  obtain ⟨checked, planned, updates, -⟩ := ok
  intro name oid found
  obtain ⟨written, held, -⟩ := pushed.values name oid found
  rw [pushed.effective] at held
  rcases lookup_applyUpdates held with ⟨inside, kept⟩ | old
  · exact (checked.wellFormed planned updates (updates ▸ inside) kept).hex
  · exact valid written oid old

theorem Imported.objectIDs (imported : Imported git body) : ObjectIDs body.refs := by
  obtain ⟨source, defaultBranch, made, built, -⟩ := imported
  intro name oid found
  rw [(importBody_ok built).refs] at found
  obtain ⟨written, held, -⟩ := lookup_decodeRefs_encodeRefs found
  exact source.objectIDs written oid held

theorem Lists.objectIDs_inline {refs : RefMap} (lists : Lists h σ body refs)
    (sound : Sound h σ body) (valid : ObjectIDs refs) : ObjectIDs body.refs := by
  rcases lists.inline_refs sound with same | empty
  · exact same ▸ valid
  · intro name oid found
    simp [empty] at found

theorem Global.objectIDs_step (global : Global h σ) (member : link ∈ σ.links) {before : RefMap}
    (lists : Lists h σ link.prev.body before)
    (follows : Follows h σ link.prev before after link.job) (valid : ObjectIDs before) :
    ObjectIDs after := by
  have ok := (global.linked link member).job
  have inline := lists.objectIDs_inline (global.sound (global.chained.prev_mem member)) valid
  generalize link.job = job at follows ok
  cases job with
  | push p plan => exact Pushed.objectIDs follows ok valid
  | importRefs body => exact follows ▸ ok.1.objectIDs
  | repack m0 input | compact m0 input => exact follows ▸ inline
  | bundle fresh | backfill m0 | reshard start => exact follows ▸ valid

/-- The set `Load` returns for a root with this index and these refs. -/
def Index.loaded (index : Index) (refs : RefMap) : IndexSet :=
  ⟨index.graph, index.table, index.deltas, replay index.deltas refs, deltaIndex index.deltas⟩

/-- A root that can be loaded, with what it leads to. -/
structure Loads (h : Hashing) (σ : World git) (store : Artifacts) (body : Body) (refs : RefMap)
    (index : Index) : Prop where
  lists : Lists h σ body refs
  refers : Refers store body (some index)
  load : load h σ.objects store body = .ok (index.loaded refs)

theorem History.loads (history : History h commits store σ) (fit : ∀ link ∈ σ.links, NamesFit link)
    (init : P σ.origin ∅ none)
    (keep : ∀ link ∈ σ.links, ∀ before after index next, Lists h σ link.prev.body before →
      Follows h σ link.prev before after link.job → Refers store link.prev.body index →
      Reindexes commits store index next link.job → P link.prev before index →
      P link.next after next) (member : root ∈ σ.history)
    (carries : root.body.indexes ≠ ⟨none, none, none⟩) :
    ∃ refs index, Loads h σ store root.body refs index ∧ P root refs (some index) := by
  obtain ⟨refs, index, lists, refers, valid, holds⟩ := history.invariant fit
    (P := fun root refs index => ObjectIDs refs ∧ P root refs index)
    ⟨fun name oid found => by simp at found, init⟩
    (fun link inside before after index next lists follows refers reindexes holds =>
      ⟨history.global.objectIDs_step inside lists follows holds.1,
        keep link inside before after index next lists follows refers reindexes holds.2⟩) member
  cases index with
  | none => exact absurd refers.1 carries
  | some index => exact ⟨refs, index, ⟨lists, refers, Described.load refers lists.listed valid⟩, holds⟩

theorem History.commit (history : History h commits store σ) (fit : ∀ link ∈ σ.links, NamesFit link)
    (member : link ∈ σ.links) :
    ∃ before after index next, Lists h σ link.prev.body before ∧ Lists h σ link.next.body after ∧
      ObjectIDs after ∧ Follows h σ link.prev before after link.job ∧
      Refers store link.prev.body index ∧ Refers store link.next.body next ∧
      Reindexes commits store index next link.job := by
  have global := history.global
  obtain ⟨before, index, lists, refers, valid⟩ := history.invariant fit
    (P := fun _ refs _ => ObjectIDs refs) (fun name oid found => by simp at found)
    (fun link inside before after _ _ lists follows _ _ valid =>
      global.objectIDs_step inside lists follows valid) (global.chained.prev_mem member)
  obtain ⟨after, listed, follows⟩ := global.follows member lists (fit link member)
  obtain ⟨next, referred, reindexes⟩ :=
    global.reindexes member (history.indexed link member) refers
  exact ⟨before, after, index, next, lists, listed,
    global.objectIDs_step member lists follows valid, follows, refers, referred, reindexes⟩

/-! The two commits that trim the chain. -/

def Job.snapshot : Job git → Option Body
  | .repack m0 _ => some m0
  | .compact m0 _ => some m0
  | _ => none

/-- The deltas of `prev` that a run started at `m0` leaves in the chain. -/
def leftDeltas (store : Artifacts) (m0 prev : Body) : List Delta :=
  survivors store m0 (chainOf store (deltaRefs prev))

/-- What a repack or a compaction leaves: the commit graph of its start snapshot, and the
deltas it did not consume. -/
structure Trimmed (commits : Commits git) (store : Artifacts) (m0 prev : Body) (index : Index) :
    Prop where
  graph : ∃ id, PacksAll git m0.refs id ∧ buildCommitGraph commits id m0.refs = .ok index.graph
  deltas : index.deltas = leftDeltas store m0 prev

theorem Refers.chainOf (refers : Refers store body index) :
    chainOf store (Reachability.deltaRefs body) = deltasOf index := by
  rw [refers.deltaRefs, chainOf_map]

theorem Reindexes.trimmed {after : Option Index}
    (reindexes : Reindexes commits store before after job) (ok : JobOK h σ job)
    (refers : Refers store prev before) (started : job.snapshot = some m0) :
    ∃ index, after = some index ∧ Trimmed commits store m0 prev index := by
  cases job with
  | repack start input =>
    cases started
    obtain ⟨index, rfl, built, deltas⟩ := reindexes
    exact ⟨index, rfl, ⟨_, ok.2.1.packed, built.graph⟩, by rw [deltas, ← refers.chainOf]; rfl⟩
  | compact start input =>
    cases started
    obtain ⟨old, index, id, rfl, rfl, -, packed, built, deltas⟩ := reindexes
    exact ⟨index, rfl, ⟨id, packed, built⟩,
      by rw [deltas, show old.deltas = deltasOf (some old) from rfl, ← refers.chainOf]; rfl⟩
  | _ => cases started

theorem Follows.trimmed {prev : Root} {before : RefMap}
    (follows : Follows h σ prev before after job) (started : job.snapshot = some m0) :
    after = prev.body.refs := by
  cases job with
  | repack start input | compact start input => exact follows
  | _ => cases started

theorem History.trimmed (history : History h commits store σ)
    (fit : ∀ link ∈ σ.links, NamesFit link) (member : link ∈ σ.links)
    (started : link.job.snapshot = some m0) :
    ∃ index, Loads h σ store link.next.body link.prev.body.refs index ∧
      Trimmed commits store m0 link.prev.body index := by
  obtain ⟨before, after, index, next, -, listed, valid, follows, refers, referred, reindexes⟩ :=
    history.commit fit member
  obtain ⟨index, rfl, trimmed⟩ :=
    reindexes.trimmed (history.global.linked link member).job refers started
  obtain rfl := follows.trimmed started
  exact ⟨index, ⟨listed, referred, Described.load referred listed.listed valid⟩, trimmed⟩

end BucketVcs.Writers
