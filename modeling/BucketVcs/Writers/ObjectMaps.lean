import BucketVcs.Writers.IndexedRuns

/-! The object map of a root: the packs it names, and the objects it finds. -/

namespace BucketVcs.Writers

open Manifest RefStore Importer ReceivePack Maintenance Reachability Transition List

variable {git : Git} {h : Hashing} {commits : Commits git} {store : Artifacts} {σ : World git}

/-- The object map of the body opens, and every pack it names is among the packs listed. -/
def PackTableListed (store : Artifacts) (body : Body) : Prop :=
  ∀ ref, body.indexes.objectMap = some ref → ∃ table, openObjectMap store ref = .ok table ∧
    ∀ id ∈ table.packTable, ∃ pack ∈ body.packs, pack.packID = id

def NamesPacks (index : Option Index) (packs : List PackEntry) : Prop :=
  ∀ found, index = some found → ∀ id ∈ found.table.packTable, ∃ pack ∈ packs, pack.packID = id

variable {index : Index} {id : PackID}

theorem namesPacks_built {refs : RefMap} {packs : List PackEntry}
    (built : IndexesPack commits id refs index.table index.graph)
    (listed : ∃ pack ∈ packs, pack.packID = id) : NamesPacks (some index) packs := by
  rintro found ⟨rfl⟩ other member
  rw [packTable_of_built built.table member]
  exact listed

theorem NamesPacks.mono {index : Option Index} {packs more : List PackEntry}
    (names : NamesPacks index packs)
    (kept : ∀ pack ∈ packs, ∃ other ∈ more, other.packID = pack.packID) :
    NamesPacks index more := by
  intro found same id member
  obtain ⟨pack, inside, rfl⟩ := names found same id member
  exact kept pack inside

theorem Planned.packs {plan : Plan} (planned : Planned h σ plan) {pack : PackEntry}
    (packed : plan.pack = some pack) : pack ∈ plan.body.packs := by
  obtain ⟨_, _, made, patch, stage, -, -, prepared, -⟩ := planned.prepared
  rcases prepared.body with ⟨-, unpacked, -⟩ | ⟨-, here, -, marshalled⟩
  · cases unpacked.symm.trans packed
  · cases here.symm.trans packed
    rw [(marshalBody_ok marshalled).2.2]
    exact mem_singleton_self _

theorem packID_backfillPack (trailer : Key → Option String) (pack : PackEntry) :
    (backfillPack trailer pack).packID = pack.packID := by
  unfold backfillPack
  split
  · rfl
  · split <;> rfl

variable {link : Link git}

theorem Global.namesPacks_step (global : Global h σ) (member : link ∈ σ.links)
    {before after : Option Index} (reindexes : Reindexes commits store before after link.job)
    (names : NamesPacks before link.prev.body.packs) : NamesPacks after link.next.body.packs := by
  have linked := global.linked link member
  obtain ⟨trailer, built⟩ := linked.body_built
  have ok := linked.job
  have based := linked.based
  have same (packs : link.next.body.packs = link.prev.body.packs) :
      NamesPacks before link.next.body.packs := by rwa [packs]
  generalize link.job = job at built ok based reindexes
  cases job with
  | push p plan =>
    rcases reindexes with ⟨-, rfl⟩ | ⟨pack, index, packed, rfl, indexes, -⟩
    · rintro _ ⟨⟩
    · rw [built.2]
      exact namesPacks_built indexes ⟨pack, ok.2.1.packs packed, rfl⟩
  | importRefs body =>
    rcases reindexes with ⟨-, rfl⟩ | ⟨pack, refs, index, packs, rfl, indexes, -⟩
    · rintro _ ⟨⟩
    · rw [built.2, packs]
      exact namesPacks_built indexes ⟨pack, mem_singleton_self _, rfl⟩
  | repack m0 input =>
    obtain ⟨index, rfl, indexes, -⟩ := reindexes
    rw [(marshalBody_ok built).2.2]
    exact namesPacks_built indexes ⟨input.newPack, mem_cons_self, rfl⟩
  | compact m0 input =>
    -- the map and the packs are both those of the root replaced
    obtain ⟨old, index, id, rfl, rfl, table, -⟩ := reindexes
    rintro found ⟨rfl⟩ id member
    rw [table] at member
    rw [(marshalBody_ok built.2).2.2]
    exact names old rfl id member
  | bundle fresh =>
    obtain ⟨bundles, -, marshalled⟩ := built
    obtain rfl : after = before := reindexes
    exact same (by rw [(marshalBody_ok marshalled).2.2])
  | backfill m0 =>
    obtain rfl : after = before := reindexes
    rw [(marshalBody_ok built).2.2]
    exact names.mono fun pack inside =>
      ⟨_, mem_map_of_mem inside, packID_backfillPack trailer pack⟩
  | reshard start =>
    obtain rfl := based start rfl
    obtain rfl : after = before := reindexes
    exact same (by rw [(marshalBody_ok built.2).2.2]; rfl)

/-- In every run of imports, pushes, repacks, compactions, bundle merges, backfills and
reshards, the pack table of every root's object map names packs that the root lists. -/
theorem object_map_names_listed_packs (defaultBranch : RefName) (version : Nat)
    (valid : Utf8.Valid defaultBranch)
    (events : List (Event (System git) (ThreadId × Label))) (s : System git)
    (run : Run (IndexStep h commits store) (start defaultBranch version) events s) :
    ∀ root ∈ s.shared.history, PackTableListed store root.body := by
  have history := run_history valid run
  have global := history.global
  intro root member
  obtain ⟨index, refers, names⟩ := global.chained.invariant
    (P := fun root => ∃ index, Refers store root.body index ∧ NamesPacks index root.body.packs)
    (by
      obtain ⟨branch, created⟩ := history.origin
      exact ⟨none, by rw [created]; exact ⟨rfl, rfl⟩, by rintro _ ⟨⟩⟩)
    (by
      rintro link inside ⟨before, refers, names⟩
      obtain ⟨after, referred, reindexes⟩ :=
        global.reindexes inside (history.indexed link inside) refers
      exact ⟨after, referred, global.namesPacks_step inside reindexes names⟩) root member
  intro ref carried
  cases index with
  | none => cases refers.1 ▸ carried
  | some index =>
    cases refers.table.symm.trans carried
    exact ⟨index.table, openObjectMap_ref index.table, names index rfl⟩

theorem object_map_names_listed_packs_sample :
    ∃ events s, Run (IndexStep spelledHashing lineCommits spelledStore) (start mainRef 1) events s ∧
      s.shared.root.body.indexes.objectMap = some (objectMapRef spelledStore bothTable) ∧
      ∀ root ∈ s.shared.history, PackTableListed spelledStore root.body := by
  obtain ⟨s, shared, events, run, -⟩ := reached_older
  refine ⟨events, s, run, ?_, object_map_names_listed_packs mainRef 1 (by decide) events s run⟩
  rw [shared]
  exact root_older.refers.table

/-! Completeness. -/

/-- The loaded index knows a pack for every object that the refs of the body reach. -/
def ObjectsFound (h : Hashing) (store : Artifacts) (σ : World git) (body : Body) : Prop :=
  ∃ set refs, load h σ.objects store body = .ok set ∧ RefStore.list h σ.objects body = .ok refs ∧
    ∀ oid, ReachedFrom git refs oid → (set.objectPack oid).isSome = true

/-- What the refs of the root a repack replaces reach was reachable when the repack started. -/
def RepackReaches (link : Link git) : Prop :=
  ∀ m0 input, link.job = .repack m0 input → ∀ oid, ReachedFrom git link.prev.body.refs oid →
    ReachedFrom git m0.refs oid

def Finds (git : Git) (refs : RefMap) (index : Option Index) : Prop :=
  ∀ found, index = some found → ∀ oid, ReachedFrom git refs oid → (found.table.lookup oid).isSome = true

variable {refs tips : RefMap}

theorem finds_built (built : IndexesPack commits id tips index.table index.graph)
    (packed : ∀ oid, ReachedFrom git refs oid → oid ∈ git.contents id) :
    Finds git refs (some index) := by
  rintro found ⟨rfl⟩ oid reached
  exact (lookup_of_built built.table oid).mpr (packed oid reached)

variable {before after : RefMap}

theorem Global.finds_step (global : Global h σ) (member : link ∈ σ.links)
    {index next : Option Index} (lists : Lists h σ link.prev.body before)
    (follows : Follows h σ link.prev before after link.job)
    (reindexes : Reindexes commits store index next link.job) (reaches : RepackReaches link)
    (finds : Finds git before index) : Finds git after next := by
  have linked := global.linked link member
  have ok := linked.job
  have sound := global.sound (global.chained.prev_mem member)
  unfold RepackReaches at reaches
  generalize link.job = job at follows ok reindexes reaches
  cases job with
  | push p plan =>
    rcases reindexes with ⟨-, rfl⟩ | ⟨pack, index, packed, rfl, indexes, -⟩
    · rintro _ ⟨⟩
    · exact finds_built indexes fun oid reached => follows.contains ok.2.1 packed reached
  | importRefs body =>
    rcases reindexes with ⟨-, rfl⟩ | ⟨pack, refs, index, packs, rfl, indexes, -⟩
    · rintro _ ⟨⟩
    · refine finds_built indexes fun oid reached => ?_
      exact ok.1.contains_only packs (show ReachedFrom git body.refs oid from follows ▸ reached)
  | repack m0 input =>
    obtain ⟨index, rfl, indexes, -⟩ := reindexes
    refine finds_built indexes fun oid reached => (ok.2.1.packed.exactly oid).mpr ?_
    exact reaches m0 input rfl oid (follows ▸ reached)
  | compact m0 input =>
    obtain ⟨old, index, id, rfl, rfl, table, -⟩ := reindexes
    rintro found ⟨rfl⟩ oid reached
    rw [table]
    rw [show after = link.prev.body.refs from follows] at reached
    exact finds old rfl oid (lists.reaches sound reached)
  | bundle fresh | backfill m0 | reshard start =>
    obtain rfl : after = before := follows
    obtain rfl : next = index := reindexes
    exact finds

theorem History.repacked (history : History h commits store σ)
    (fit : ∀ link ∈ σ.links, NamesFit link) (member : link ∈ σ.links)
    {m0 : Body} {input : MergeInput} (job : link.job = .repack m0 input) :
    ∃ index, Loads h σ store link.next.body link.prev.body.refs index ∧
      buildObjectMap commits input.newPack.packID = .ok index.table := by
  obtain ⟨before, after, index, next, -, listed, valid, follows, -, referred, reindexes⟩ :=
    history.commit fit member
  rw [job] at follows reindexes
  obtain ⟨index, rfl, indexes, -⟩ := reindexes
  obtain rfl : after = link.prev.body.refs := follows
  exact ⟨index, ⟨listed, referred, Described.load referred listed.listed valid⟩, indexes.table⟩

/-- In every run whose pushes over sharded roots name their refs in UTF-8, the object maps of
all roots find everything that the refs reach exactly if every repack finds, when it commits,
only what was reachable when it started. -/
theorem object_map_complete_iff (defaultBranch : RefName) (version : Nat)
    (valid : Utf8.Valid defaultBranch)
    (events : List (Event (System git) (ThreadId × Label))) (s : System git)
    (run : Run (IndexStep h commits store) (start defaultBranch version) events s)
    (fit : ∀ link ∈ s.shared.links, NamesFit link) :
    (∀ root ∈ s.shared.history, root.body.indexes.objectMap.isSome = true →
      ObjectsFound h store s.shared root.body) ↔ ∀ link ∈ s.shared.links, RepackReaches link := by
  have history := run_history valid run
  have global := history.global
  constructor
  · intro found link member m0 input job oid reached
    obtain ⟨index, loads, built⟩ := history.repacked fit member job
    obtain ⟨set, refs, loaded, listed, complete⟩ :=
      found link.next (mem_history member) (by rw [loads.refers.table]; rfl)
    cases loads.load.symm.trans loaded
    cases loads.lists.listed.symm.trans listed
    have packed := (lookup_of_built built oid).mp (complete oid reached)
    have ok := (global.linked link member).job
    rw [job] at ok
    exact (ok.2.1.packed.exactly oid).mp packed
  · intro reaches root member carries
    obtain ⟨refs, index, loads, finds⟩ := history.loads fit
      (P := fun _ refs index => Finds git refs index) (by rintro _ ⟨⟩)
      (fun link inside before after index next lists follows _ reindexes finds =>
        global.finds_step inside lists follows reindexes (reaches link inside) finds) member
      (by rintro none; simp [none] at carries)
    exact ⟨_, refs, loads.load, loads.lists.listed, finds index rfl⟩

/-- The repack started while the branch was gone; its map lacks the commit of the branch. -/
theorem object_map_misses_restored_commit :
    ∃ events s, Run (IndexStep spelledHashing lineCommits spelledStore) (start mainRef 1) events s ∧
      ∃ set refs, load spelledHashing s.shared.objects spelledStore s.shared.root.body = .ok set ∧
        RefStore.list spelledHashing s.shared.objects s.shared.root.body = .ok refs ∧
        refs.lookup otherRef = some objectTwo ∧ set.objectPack objectTwo = none := by
  obtain ⟨s, shared, events, run, -⟩ := reached_newer
  refine ⟨events, s, run, ?_⟩
  rw [shared]
  exact ⟨_, bothRefs, Described.load root_newer.refers root_newer.listed objectIDs_bothRefs,
    root_newer.listed, by decide, by decide⟩

theorem object_map_complete_sample :
    ∃ events s, Run (IndexStep spelledHashing lineCommits spelledStore) (start mainRef 1) events s ∧
      s.shared.root.body.refs = bothRefs ∧
      ∀ root ∈ s.shared.history, root.body.indexes.objectMap.isSome = true →
        ObjectsFound spelledHashing spelledStore s.shared root.body := by
  obtain ⟨s, shared, events, run, -⟩ := reached_older
  have decided := object_map_complete_iff mainRef 1 (by decide) events s run
  refine ⟨events, s, run, by rw [shared]; exact root_older.refs, ?_⟩
  rw [shared] at decided ⊢
  refine (decided fit_older).mpr fun link member m0 input job oid reached => ?_
  rcases mem_cons.mp member with rfl | older
  · cases job
    exact reached
  · have none := pushes_again link older
    rw [job] at none
    cases none

/-! Which roots have a commit graph and a delta chain that know every commit of their refs. -/

/-- The loaded index has every commit that the refs of the body reach, with its own parents. -/
def CommitsKnown (h : Hashing) (commits : Commits git) (store : Artifacts) (σ : World git)
    (body : Body) : Prop :=
  ∃ set refs, load h σ.objects store body = .ok set ∧ RefStore.list h σ.objects body = .ok refs ∧
    ∀ oid, commits.isCommit oid = true → ReachedFrom git refs oid →
      set.has oid = true ∧ set.parents oid = commits.parents oid

def Recorded (deltas : List Delta) (oid : OID) : Prop :=
  ∃ delta ∈ deltas, ∃ record ∈ delta.commits, record.oid = oid

/-- A repack or compaction may put the commit graph of its start over the root it replaces: each
commit of that root was reachable at the start, or a delta that is left records it. -/
def TrimCovers (commits : Commits git) (store : Artifacts) (link : Link git) : Prop :=
  ∀ m0, link.job.snapshot = some m0 → ∀ oid, commits.isCommit oid = true →
    ReachedFrom git link.prev.body.refs oid →
    ReachedFrom git m0.refs oid ∨ Recorded (leftDeltas store m0 link.prev.body) oid

/-- Every record of the index has the parents of its commit. -/
structure Genuine (commits : Commits git) (index : Option Index) : Prop where
  graph : ∀ found, index = some found → Real commits found.graph.commits
  chain : ∀ delta ∈ deltasOf index, Real commits delta.commits

def Covers (commits : Commits git) (refs : RefMap) (index : Option Index) : Prop :=
  ∀ found, index = some found → ∀ oid, commits.isCommit oid = true → ReachedFrom git refs oid →
    Recorded found.deltas oid ∨ (found.graph.record oid).isSome = true

theorem genuine_none : Genuine commits none := by
  refine ⟨?_, fun delta member => absurd member not_mem_nil⟩
  rintro _ ⟨⟩

theorem genuine_some (graph : Real commits index.graph.commits)
    (chain : ∀ delta ∈ index.deltas, Real commits delta.commits) : Genuine commits (some index) := by
  refine ⟨?_, chain⟩
  rintro _ ⟨rfl⟩
  exact graph

theorem Extends.real {p : Push git} {before : Option Index} {after : List Delta}
    (extended : Extends commits p before after)
    (chain : ∀ delta ∈ deltasOf before, Real commits delta.commits) :
    ∀ delta ∈ after, Real commits delta.commits := by
  rcases extended with ⟨rfl, -⟩ | ⟨known, newOIDs, packs, rfl⟩
  · exact chain
  · intro delta member
    rcases mem_append.mp member with old | new
    · exact chain delta old
    · cases mem_singleton.mp new
      exact real_buildDelta known newOIDs _ packs

theorem Reindexes.genuine {job : Job git} {before after : Option Index}
    (reindexes : Reindexes commits store before after job) (genuine : Genuine commits before) :
    Genuine commits after := by
  cases job with
  | push p plan =>
    rcases reindexes with ⟨-, rfl⟩ | ⟨pack, index, -, rfl, indexes, extended⟩
    · exact genuine_none
    · exact genuine_some (real_of_built indexes.graph) (extended.real genuine.chain)
  | importRefs body =>
    rcases reindexes with ⟨-, rfl⟩ | ⟨pack, refs, index, -, rfl, indexes, deltas⟩
    · exact genuine_none
    · exact genuine_some (real_of_built indexes.graph) (by simp [deltas])
  | repack m0 input =>
    obtain ⟨index, rfl, indexes, deltas⟩ := reindexes
    refine genuine_some (real_of_built indexes.graph) fun delta member => ?_
    rw [deltas] at member
    exact genuine.chain delta (mem_of_mem_filter member)
  | compact m0 input =>
    obtain ⟨old, index, id, rfl, rfl, -, -, built, deltas⟩ := reindexes
    refine genuine_some (real_of_built built) fun delta member => ?_
    rw [deltas] at member
    exact genuine.chain delta (mem_of_mem_filter member)
  | bundle fresh | backfill m0 | reshard start =>
    obtain rfl : after = before := reindexes
    exact genuine

theorem covers_built (built : buildCommitGraph commits id tips = .ok index.graph)
    (packed : ∀ oid, ReachedFrom git refs oid → oid ∈ git.contents id) :
    Covers commits refs (some index) := by
  rintro found ⟨rfl⟩ oid commit reached
  exact .inr ((record_of_built built oid).mpr ⟨packed oid reached, commit⟩)

theorem Trimmed.knows_iff {m0 prev : Body}
    (trimmed : Trimmed commits store m0 prev index) {oid : OID}
    (commit : commits.isCommit oid = true) :
    (Recorded index.deltas oid ∨ (index.graph.record oid).isSome = true) ↔
      ReachedFrom git m0.refs oid ∨ Recorded (leftDeltas store m0 prev) oid := by
  obtain ⟨id, packed, built⟩ := trimmed.graph
  rw [trimmed.deltas, record_of_built built oid, packed.exactly oid, or_comm]
  simp [commit]

theorem Global.covers_step (global : Global h σ) (member : link ∈ σ.links) {index next : Option Index}
    (follows : Follows h σ link.prev before after link.job)
    (refers : Refers store link.prev.body index)
    (reindexes : Reindexes commits store index next link.job)
    (trims : TrimCovers commits store link) (covers : Covers commits before index) :
    Covers commits after next := by
  have ok := (global.linked link member).job
  have trimmed {m0 : Body} (started : link.job.snapshot = some m0) : Covers commits after next := by
    obtain ⟨found, rfl, trimmed⟩ := reindexes.trimmed ok refers started
    obtain rfl := follows.trimmed started
    rintro _ ⟨rfl⟩ oid commit reached
    exact (trimmed.knows_iff commit).mpr (trims m0 started oid commit reached)
  generalize link.job = job at follows ok reindexes trimmed
  cases job with
  | push p plan =>
    rcases reindexes with ⟨-, rfl⟩ | ⟨pack, index, packed, rfl, indexes, -⟩
    · rintro _ ⟨⟩
    · exact covers_built indexes.graph fun oid reached => follows.contains ok.2.1 packed reached
  | importRefs body =>
    rcases reindexes with ⟨-, rfl⟩ | ⟨pack, refs, index, packs, rfl, indexes, -⟩
    · rintro _ ⟨⟩
    · refine covers_built indexes.graph fun oid reached => ?_
      exact ok.1.contains_only packs (show ReachedFrom git body.refs oid from follows ▸ reached)
  | repack m0 input | compact m0 input => exact trimmed rfl
  | bundle fresh | backfill m0 | reshard start =>
    obtain rfl : after = before := follows
    obtain rfl : next = index := reindexes
    exact covers

/-- In every run whose pushes over sharded roots name their refs in UTF-8, the index of every
root that carries a commit graph knows all commits of its refs, with their parents, exactly if
each repack and each compaction leaves no commit outside its start snapshot unrecorded. -/
theorem index_covers_refs_iff (defaultBranch : RefName) (version : Nat)
    (valid : Utf8.Valid defaultBranch)
    (events : List (Event (System git) (ThreadId × Label))) (s : System git)
    (run : Run (IndexStep h commits store) (start defaultBranch version) events s)
    (fit : ∀ link ∈ s.shared.links, NamesFit link) :
    (∀ root ∈ s.shared.history, root.body.indexes.commitGraph.isSome = true →
      CommitsKnown h commits store s.shared root.body) ↔
        ∀ link ∈ s.shared.links, TrimCovers commits store link := by
  have history := run_history valid run
  have global := history.global
  constructor
  · intro known link member m0 started oid commit reached
    obtain ⟨index, loads, trimmed⟩ := history.trimmed fit member started
    obtain ⟨set, refs, loaded, listed, complete⟩ :=
      known link.next (mem_history member) (by rw [loads.refers.graph]; rfl)
    cases loads.load.symm.trans loaded
    cases loads.lists.listed.symm.trans listed
    exact (trimmed.knows_iff commit).mp (IndexSet.has_iff.mp (complete oid commit reached).1)
  · intro trims root member carries
    obtain ⟨refs, index, loads, genuine, covers⟩ := history.loads fit
      (P := fun _ refs index => Genuine commits index ∧ Covers commits refs index)
      ⟨genuine_none, by rintro _ ⟨⟩⟩
      (fun link inside before after index next lists follows refers reindexes holds =>
        ⟨reindexes.genuine holds.1,
          global.covers_step inside follows refers reindexes (trims link inside) holds.2⟩) member
      (by rintro none; simp [none] at carries)
    refine ⟨_, refs, loads.load, loads.lists.listed, fun oid commit reached => ?_⟩
    have known : (index.loaded refs).has oid = true :=
      IndexSet.has_iff.mpr (covers index rfl oid commit reached)
    exact ⟨known, IndexSet.parents_of_real (genuine.graph index rfl) genuine.chain known⟩

/-- The repack started while the branch was gone and consumed the delta that recorded its
commit; the delta of the second creation is the same one. -/
theorem restored_commit_unknown :
    ∃ events s, Run (IndexStep spelledHashing lineCommits spelledStore) (start mainRef 1) events s ∧
      ∃ set refs, load spelledHashing s.shared.objects spelledStore s.shared.root.body = .ok set ∧
        RefStore.list spelledHashing s.shared.objects s.shared.root.body = .ok refs ∧
        refs.lookup otherRef = some objectTwo ∧ lineCommits.isCommit objectTwo = true ∧
        set.has objectTwo = false := by
  obtain ⟨s, shared, events, run, -⟩ := reached_newer
  refine ⟨events, s, run, ?_⟩
  rw [shared]
  exact ⟨_, bothRefs, Described.load root_newer.refers root_newer.listed objectIDs_bothRefs,
    root_newer.listed, by decide, by decide, by decide⟩

theorem index_covers_refs_sample :
    ∃ events s, Run (IndexStep spelledHashing lineCommits spelledStore) (start mainRef 1) events s ∧
      s.shared.root.body.refs = bothRefs ∧
      ∀ root ∈ s.shared.history, root.body.indexes.commitGraph.isSome = true →
        CommitsKnown spelledHashing lineCommits spelledStore s.shared root.body := by
  obtain ⟨s, shared, events, run, -⟩ := reached_older
  have decided := index_covers_refs_iff mainRef 1 (by decide) events s run
  refine ⟨events, s, run, by rw [shared]; exact root_older.refs, ?_⟩
  rw [shared] at decided ⊢
  refine (decided fit_older).mpr fun link member m0 started oid commit reached => ?_
  rcases mem_cons.mp member with rfl | older
  · cases started
    exact .inl reached
  · cases (pushes_again link older).symm.trans started

/-! Which roots keep their refs when their delta chain is replayed over them. -/

/-- The ref tips of the loaded index are the refs the body lists. -/
def TipsAgree (h : Hashing) (store : Artifacts) (σ : World git) (body : Body) : Prop :=
  ∃ set refs, load h σ.objects store body = .ok set ∧ RefStore.list h σ.objects body = .ok refs ∧
    set.refTips = refs

/-- The last of the deltas left that names a ref gives it the value it has in the root that the
repack or compaction replaces. -/
def TrimAgrees (store : Artifacts) (link : Link git) : Prop :=
  ∀ m0, link.job.snapshot = some m0 → ∀ name tip,
    lastTip (leftDeltas store m0 link.prev.body) name = some tip →
      link.prev.body.refs.lookup name = tip.value

def Settled (refs : RefMap) (deltas : List Delta) : Prop :=
  ∀ name tip, lastTip deltas name = some tip → refs.lookup name = tip.value

theorem settled_nil (refs : RefMap) : Settled refs [] := by
  intro name tip last
  cases last

theorem Settled.pushed {p : Push git} {refs : RefMap} {before : Option Index} {after : List Delta}
    (settled : Settled refs (deltasOf before)) (extended : Extends commits p before after)
    (distinct : ((accepted p.statuses).map UpdateCommand.refname).Nodup)
    (hex : ∀ u ∈ accepted p.statuses, RefNames.isHexOID u.newOID = true) :
    Settled (applyUpdates (refUpdates (accepted p.statuses)) refs) after := by
  intro name tip last
  rcases extended with ⟨rfl, nothing | rfl⟩ | ⟨known, newOIDs, packs, rfl⟩
  · rw [nothing]
    exact settled name tip last
  · exact absurd last (by simp [deltasOf, lastTip])
  · rw [lastTip_append] at last
    cases new : lastTip [buildDelta commits known newOIDs (accepted p.statuses) packs] name with
    | some entry =>
      rw [new] at last
      cases last
      obtain ⟨rfl, delta, single, member⟩ := lastTip_some new
      cases mem_singleton.mp single
      obtain ⟨u, committed, rfl⟩ := mem_refTips_buildDelta.mp member
      rw [value_refTip (hex u committed)]
      exact lookup_refUpdates_of_mem distinct committed (hex u committed)
    | none =>
      rw [new] at last
      have outside : name ∉ (accepted p.statuses).map UpdateCommand.refname := by
        intro inside
        obtain ⟨u, committed, same⟩ := mem_map.mp inside
        exact lastTip_none new _ (mem_singleton_self _) _
          (mem_refTips_buildDelta.mpr ⟨u, committed, rfl⟩) same
      rw [lookup_refUpdates_of_not_mem outside]
      exact settled name tip last

theorem Global.settled_step (global : Global h σ) (member : link ∈ σ.links) {index next : Option Index}
    (follows : Follows h σ link.prev before after link.job)
    (refers : Refers store link.prev.body index)
    (reindexes : Reindexes commits store index next link.job) (named : NamesValid link)
    (trims : TrimAgrees store link) (settled : Settled before (deltasOf index)) :
    Settled after (deltasOf next) := by
  have ok := (global.linked link member).job
  have trimmed {m0 : Body} (started : link.job.snapshot = some m0) :
      Settled after (deltasOf next) := by
    obtain ⟨found, rfl, trimmed⟩ := reindexes.trimmed ok refers started
    obtain rfl := follows.trimmed started
    rw [show deltasOf (some found) = found.deltas from rfl, trimmed.deltas]
    exact trims m0 started
  unfold NamesValid at named
  generalize link.job = job at follows ok reindexes trimmed named
  cases job with
  | push p plan =>
    rcases reindexes with ⟨-, rfl⟩ | ⟨pack, found, -, rfl, -, extended⟩
    · exact settled_nil after
    · obtain ⟨checked, -, updates, -⟩ := ok
      have valid : ∀ u ∈ plan.updates, Utf8.Valid u.1 := by
        intro u inside
        rw [updates] at inside
        obtain ⟨command, committed, rfl⟩ := mem_map.mp inside
        exact named p plan rfl command committed
      rw [follows.exactly valid, updates]
      exact settled.pushed extended checked.accepted_distinct fun u committed =>
        (p.request.wellFormed u (checked.mem_updates committed)).2.2.1
  | importRefs body =>
    rcases reindexes with ⟨-, rfl⟩ | ⟨pack, refs, found, -, rfl, -, deltas⟩
    · exact settled_nil after
    · rw [show deltasOf (some found) = found.deltas from rfl, deltas]
      exact settled_nil after
  | repack m0 input | compact m0 input => exact trimmed rfl
  | bundle fresh | backfill m0 | reshard start =>
    obtain rfl : after = before := follows
    obtain rfl : next = index := reindexes
    exact settled

/-- In every run whose pushes name their refs in UTF-8, replaying the chain changes the refs of
no root exactly if the deltas left by each repack and each compaction agree with the refs of the
root it replaces. -/
theorem replay_keeps_refs_iff (defaultBranch : RefName) (version : Nat)
    (valid : Utf8.Valid defaultBranch)
    (events : List (Event (System git) (ThreadId × Label))) (s : System git)
    (run : Run (IndexStep h commits store) (start defaultBranch version) events s)
    (named : ∀ link ∈ s.shared.links, NamesValid link) :
    (∀ root ∈ s.shared.history, root.body.indexes.commitGraph.isSome = true →
      TipsAgree h store s.shared root.body) ↔
        ∀ link ∈ s.shared.links, TrimAgrees store link := by
  have history := run_history valid run
  have global := history.global
  have fit := fun link member => (named link member).fit
  constructor
  · intro agree link member m0 started
    obtain ⟨index, loads, trimmed⟩ := history.trimmed fit member started
    obtain ⟨set, refs, loaded, listed, same⟩ :=
      agree link.next (mem_history member) (by rw [loads.refers.graph]; rfl)
    cases loads.load.symm.trans loaded
    cases loads.lists.listed.symm.trans listed
    rw [← trimmed.deltas]
    exact replay_eq_self_iff.mp same
  · intro trims root member carries
    obtain ⟨refs, index, loads, settled⟩ := history.loads fit
      (P := fun _ refs index => Settled refs (deltasOf index)) (settled_nil ∅)
      (fun link inside before after index next lists follows refers reindexes settled =>
        global.settled_step inside follows refers reindexes (named link inside) (trims link inside)
          settled) member
      (by rintro none; simp [none] at carries)
    exact ⟨_, refs, loads.load, loads.lists.listed, replay_eq_self_iff.mpr settled⟩

/-- The repack consumed the delta that created the branch, and with it the same delta of the
second creation; what is left is the deletion in between. -/
theorem replay_deletes_restored_branch :
    ∃ events s, Run (IndexStep spelledHashing lineCommits spelledStore) (start mainRef 1) events s ∧
      ∃ set refs, load spelledHashing s.shared.objects spelledStore s.shared.root.body = .ok set ∧
        RefStore.list spelledHashing s.shared.objects s.shared.root.body = .ok refs ∧
        refs.lookup otherRef = some objectTwo ∧ set.refTips.lookup otherRef = none := by
  obtain ⟨s, shared, events, run, -⟩ := reached_older
  refine ⟨events, s, run, ?_⟩
  rw [shared]
  exact ⟨_, bothRefs, Described.load root_older.refers root_older.listed objectIDs_bothRefs,
    root_older.listed, by decide, by decide⟩

theorem named_linePush {σ : World lineGit} {request : Request lineGit.checkRefFormat}
    {u : UpdateCommand} {after : RefMap} {made : Repack} {delta : Delta} {p : Push lineGit}
    {plan : Plan} (job : linePush σ request u after made delta = .push p plan)
    (valid : Utf8.Valid u.refname) : ∀ v ∈ accepted p.statuses, Utf8.Valid v.refname := by
  cases job
  intro v member
  cases mem_singleton.mp member
  exact valid

theorem named_newer : ∀ link ∈ newerWorld.links, NamesValid link := by
  intro link member p plan job
  rcases mem_cons.mp member with rfl | member
  · cases job
  rcases mem_cons.mp member with rfl | member
  · exact named_linePush job rfl
  rcases mem_cons.mp member with rfl | member
  · exact named_linePush job rfl
  rcases mem_cons.mp member with rfl | member
  · exact named_linePush job rfl
  · cases mem_singleton.mp member
    cases job

theorem left_newer : leftDeltas spelledStore prunedWorld.root.body againWorld.root.body = [] := by
  rw [leftDeltas, root_again.refers.chainOf, root_pruned.refers.survivors_eq]
  decide

theorem replay_keeps_refs_sample :
    ∃ events s, Run (IndexStep spelledHashing lineCommits spelledStore) (start mainRef 1) events s ∧
      s.shared.root.body.refs = bothRefs ∧
      ∀ root ∈ s.shared.history, root.body.indexes.commitGraph.isSome = true →
        TipsAgree spelledHashing spelledStore s.shared root.body := by
  obtain ⟨s, shared, events, run, -⟩ := reached_newer
  have decided := replay_keeps_refs_iff mainRef 1 (by decide) events s run
  refine ⟨events, s, run, by rw [shared]; exact root_newer.refs, ?_⟩
  rw [shared] at decided ⊢
  refine (decided named_newer).mpr fun link member m0 started => ?_
  rcases mem_cons.mp member with rfl | older
  · cases started
    intro name tip last
    change lastTip (leftDeltas spelledStore prunedWorld.root.body againWorld.root.body) name =
      some tip at last
    rw [left_newer] at last
    cases last
  · cases (pushes_again link older).symm.trans started

end BucketVcs.Writers
