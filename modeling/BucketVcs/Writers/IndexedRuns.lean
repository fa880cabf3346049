import BucketVcs.Writers.Indexing

/-! Steps the indexed writers can always take, and a small repository to run them in. -/

namespace BucketVcs.Writers

open Manifest RefStore Importer ReceivePack Maintenance Reachability Transition List

variable {git : Git} {h : Hashing} {commits : Commits git} {store : Artifacts}
  {first s : System git}

/-- A state that some run of the indexed writers leads to. -/
abbrev IndexReached (h : Hashing) (commits : Commits git) (store : Artifacts)
    (first s : System git) : Prop :=
  Interleave.Reached (IndexMove h commits store) (fun _ => True) first s

theorem accept_indexed (reached : IndexReached h commits store first s) (t : ThreadId)
    (idle : s.threads t = .idle) (request : Request git.checkRefFormat) {statuses : Statuses}
    (through : gate request.isAtomic
      (precheckUpdates (list h s.shared.objects s.shared.root.body) request.updates) =
        .inr statuses) :
    IndexReached h commits store first
      (Interleave.advance s t s.shared (.accepted ⟨request, s.shared.root, statuses⟩)) :=
  (reached.take t idle ⟨.receive request through, trivial⟩ trivial).again
    ⟨.screen (screens_refl _) (gate_again through), trivial⟩ trivial

variable {t : ThreadId} {made : Repack} {tip oid : OID} {refs : RefMap} {index : Index}
  {after : RefMap} {graph : CommitGraph} {table : ObjectMap} {m0 : Body}

variable {σ : World git}

theorem build_indexed {p : Push git}
    (reached : IndexReached h commits store first (Interleave.advance s t σ (.accepted p)))
    {bare : Bare} {patch : Patch} {plan : Plan} {pack : PackEntry}
    (built : prepare h git σ.objects σ.root bare (refUpdates (accepted p.statuses)) made
      patch = .ok plan) (packed : PacksAll git bare.refs made.packID) (held : plan.pack = some pack)
    (hashes : Hashes commits store plan.effective made)
    (patches : Patches h commits store σ p made.packID patch) :
    IndexReached h commits store first
      (Interleave.advance s t (σ.putPack pack) (.ready (.push p plan))) :=
  (reached.again ⟨.prepare built fun _ => packed, bare, made, patch, built,
    fun _ => ⟨hashes, patches⟩⟩ trivial).again ⟨.upload held, trivial⟩ trivial

theorem commit_indexed {job : Job git} {body : Body}
    (reached : IndexReached h commits store first (Interleave.advance s t σ (.ready job)))
    (trailer : Key → Option String) (version : Nat)
    (built : job.callback h trailer σ.root = .ok body) (bare : job.writes = [])
    (unused : ∀ r ∈ σ.history, r.version ≠ version) :
    IndexReached h commits store first
      (Interleave.advance s t (σ.commit t job version body) (.landed job body)) := by
  have called := reached.again ⟨.call built, trivial⟩ trivial
  rw [bare] at called
  exact called.again ⟨.casTaken .applied rfl unused, trivial⟩ trivial

/-! A repository with two commits in a line, and index objects named by their contents. -/

def lineTree : OID := "3333333333333333333333333333333333333333"

def lineGit : Git where
  links := fun oid =>
    if oid = objectTwo then {objectOne, lineTree} else if oid = objectOne then {lineTree} else ∅
  contents := fun id =>
    if id = packBoth then {objectOne, objectTwo, lineTree}
    else if id = packOne then {objectOne, lineTree} else ∅
  checkRefFormat := RefNames.validRefName

def lineReach (tip : OID) : Finset OID :=
  if tip = objectTwo then {objectOne, objectTwo, lineTree}
  else if tip = objectOne then {objectOne, lineTree} else {tip}

theorem links_line : lineGit.links objectTwo = {objectOne, lineTree} ∧
    lineGit.links objectOne = {lineTree} ∧ lineGit.links lineTree = ∅ := by decide

variable {σ : World lineGit} {first s : System lineGit}

theorem links_lineReach {middle : OID} (member : middle ∈ lineReach tip)
    (step : oid ∈ lineGit.links middle) : oid ∈ lineReach tip := by
  obtain ⟨two, one, tree⟩ := links_line
  unfold lineReach at *
  split_ifs at member ⊢ with second first
  · simp only [Finset.mem_insert, Finset.mem_singleton] at member ⊢
    rcases member with rfl | rfl | rfl
    · simp [one] at step
      simp [step]
    · simp only [two, Finset.mem_insert, Finset.mem_singleton] at step
      exact step.imp_right .inr
    · simp [tree] at step
  · simp only [Finset.mem_insert, Finset.mem_singleton] at member ⊢
    rcases member with rfl | rfl
    · simp [one] at step
      simp [step]
    · simp [tree] at step
  · cases Finset.mem_singleton.mp member
    simp [lineGit, second, first] at step

theorem reach_lineGit : Reach lineGit tip oid ↔ oid ∈ lineReach tip := by
  obtain ⟨two, one, tree⟩ := links_line
  constructor
  · intro reach
    induction reach with
    | refl => unfold lineReach; split_ifs <;> simp_all
    | tail _ step ih => exact links_lineReach ih step
  · have toTree : Reach lineGit objectOne lineTree := .single (by simp [one])
    have toOne : Reach lineGit objectTwo objectOne := .single (by simp [two])
    intro member
    unfold lineReach at member
    split_ifs at member with second first
    · subst second
      simp only [Finset.mem_insert, Finset.mem_singleton] at member
      rcases member with rfl | rfl | rfl
      · exact toOne
      · exact .refl
      · exact toOne.trans toTree
    · subst first
      simp only [Finset.mem_insert, Finset.mem_singleton] at member
      rcases member with rfl | rfl
      · exact .refl
      · exact toTree
    · cases Finset.mem_singleton.mp member
      exact .refl

def lineCommits : Commits lineGit where
  isCommit := fun oid => oid = objectOne ∨ oid = objectTwo
  parents := fun oid => if oid = objectTwo then [objectOne] else []
  peel := fun oid => if oid = objectOne ∨ oid = objectTwo then some oid else none
  height := fun oid => if oid = objectTwo then 1 else 0
  listing := fun id =>
    if id = packBoth then [objectOne, objectTwo, lineTree]
    else if id = packOne then [objectOne, lineTree] else []
  offset := fun _ oid => if oid = objectOne then 12 else if oid = objectTwo then 40 else 80
  linked := by
    intro oid parent member
    split_ifs at member with second
    · cases List.mem_singleton.mp member
      simp [lineGit, second]
    · cases member
  lower := by
    intro oid parent member
    split_ifs at member with second
    · cases List.mem_singleton.mp member
      rw [second]
      decide
    · cases member
  mem_listing := by
    intro id oid
    dsimp only [lineGit]
    split_ifs <;> simp

/-! Hashes that spell the contents out. -/

def recordCode : Codes.Code CommitRecord :=
  (Codes.pair Codes.string (Codes.pair Codes.number (Codes.list Codes.string))).along
    (fun record => (record.oid, record.generation.toNat, record.parents)) (by
      rintro ⟨oid, generation, parents⟩ ⟨oid', generation', parents'⟩ same
      simp only [Prod.mk.injEq, UInt32.toNat_inj] at same
      obtain ⟨rfl, rfl, rfl⟩ := same
      rfl)

def graphCode : Codes.Code CommitGraph :=
  (Codes.pair (Codes.list recordCode)
    (Codes.list (Codes.pair (Codes.list Codes.byte) Codes.string))).along
    (fun graph => (graph.commits, graph.tips)) (by
      rintro ⟨commits, tips⟩ ⟨commits', tips'⟩ same
      cases same
      rfl)

def tableCode : Codes.Code ObjectMap :=
  (Codes.pair
    (Codes.list ((Codes.pair Codes.string (Codes.pair Codes.number Codes.number)).along
      (fun record : MapRecord => (record.oid, record.pack, record.offset)) (by
        rintro ⟨oid, pack, offset⟩ ⟨oid', pack', offset'⟩ same
        cases same
        rfl)))
    (Codes.list Codes.string)).along (fun table => (table.records, table.packTable)) (by
      rintro ⟨records, packTable⟩ ⟨records', packTable'⟩ same
      cases same
      rfl)

def deltaCode : Codes.Code Delta :=
  (Codes.pair (Codes.list recordCode) (Codes.pair
    (Codes.list ((Codes.pair (Codes.list Codes.byte) (Codes.pair Codes.string Codes.string)).along
      (fun tip : RefTipDiff => (tip.refName, tip.oldOID, tip.newOID)) (by
        rintro ⟨name, old, new⟩ ⟨name', old', new'⟩ same
        cases same
        rfl)))
    (Codes.list Codes.string))).along (fun delta => (delta.commits, delta.refTips, delta.packs)) (by
      rintro ⟨commits, tips, packs⟩ ⟨commits', tips', packs'⟩ same
      cases same
      rfl)

noncomputable def spelledStore : Artifacts where
  graphHash := graphCode.text
  mapHash := tableCode.text
  deltaHash := deltaCode.text
  deltaSize := fun _ => 0
  graphs := Function.partialInv fun graph => commitGraphKey (graphCode.text graph)
  maps := Function.partialInv fun table => objectMapKey (tableCode.text table)
  deltas := Function.partialInv fun delta => reachabilityDeltaKey (deltaCode.text delta)
  graph_held := Function.partialInv_left (commitGraphKey_injective.comp graphCode.text_injective)
  map_held := Function.partialInv_left (objectMapKey_injective.comp tableCode.text_injective)
  delta_held :=
    Function.partialInv_left (reachabilityDeltaKey_injective.comp deltaCode.text_injective)

/-! The branch is created, deleted and created again, with the same pack and the same delta
the second time. -/

def oneTable : ObjectMap := ⟨[⟨objectOne, 0, 12⟩, ⟨lineTree, 0, 80⟩], [packOne]⟩

def bothTable : ObjectMap :=
  ⟨[⟨objectOne, 0, 12⟩, ⟨objectTwo, 0, 40⟩, ⟨lineTree, 0, 80⟩], [packBoth]⟩

def oneGraph : CommitGraph := ⟨[⟨objectOne, 1, []⟩], [(mainRef, objectOne)]⟩

def bothGraph : CommitGraph :=
  ⟨[⟨objectOne, 1, []⟩, ⟨objectTwo, 2, [objectOne]⟩], [(mainRef, objectOne), (otherRef, objectTwo)]⟩

theorem indexes_one : IndexesPack lineCommits packOne oneRef oneTable oneGraph :=
  ⟨by decide, by decide⟩

theorem indexes_both : IndexesPack lineCommits packBoth bothRefs bothTable bothGraph :=
  ⟨by decide, by decide⟩

theorem lineReach_one : lineReach objectOne = {objectOne, lineTree} := by decide

theorem lineReach_two : lineReach objectTwo = {objectOne, objectTwo, lineTree} := by decide

theorem reached_oneRef :
    ReachedFrom lineGit oneRef oid ↔ oid ∈ ({objectOne, lineTree} : Finset OID) := by
  simp only [ReachedFrom, reach_lineGit, lookup_oneRef]
  constructor
  · rintro ⟨name, tip, ⟨-, rfl⟩, member⟩
    exact member
  · intro member
    exact ⟨mainRef, objectOne, ⟨rfl, rfl⟩, member⟩

theorem reached_bothRefs :
    ReachedFrom lineGit bothRefs oid ↔ oid ∈ ({objectOne, objectTwo, lineTree} : Finset OID) := by
  simp only [ReachedFrom, reach_lineGit, lookup_bothRefs]
  constructor
  · rintro ⟨name, tip, ⟨-, rfl⟩ | ⟨-, rfl⟩, member⟩
    · rw [lineReach_one] at member
      exact Finset.mem_of_subset (by decide) member
    · exact member
  · intro member
    exact ⟨otherRef, objectTwo, .inr ⟨rfl, rfl⟩, member⟩

theorem packsAll_lineOne : PacksAll lineGit oneRef packOne :=
  ⟨fun _ => reached_oneRef.symm, by decide⟩

theorem packsAll_lineBoth : PacksAll lineGit bothRefs packBoth :=
  ⟨fun _ => reached_bothRefs.symm, by decide⟩

def lineOne : Repack := ⟨packOne, 0, 0, tableCode.text oneTable, graphCode.text oneGraph⟩

def lineBoth : Repack := ⟨packBoth, 0, 0, tableCode.text bothTable, graphCode.text bothGraph⟩

theorem hashes_one : Hashes lineCommits spelledStore oneRef lineOne :=
  ⟨oneTable, oneGraph, indexes_one, rfl, rfl⟩

theorem hashes_both : Hashes lineCommits spelledStore bothRefs lineBoth :=
  ⟨bothTable, bothGraph, indexes_both, rfl, rfl⟩

def lineSource : Source lineGit where
  refs := oneRef
  named := by
    intro name member
    obtain ⟨oid, found⟩ := Finmap.mem_iff.mp member
    obtain ⟨rfl, -⟩ := lookup_oneRef.mp found
    decide
  objectIDs := by
    intro name oid found
    obtain ⟨-, rfl⟩ := lookup_oneRef.mp found
    decide
  coexist := by
    intro parent above name below
    obtain ⟨oid, found⟩ := Finmap.mem_iff.mp above
    obtain ⟨oid', found'⟩ := Finmap.mem_iff.mp below
    obtain ⟨rfl, -⟩ := lookup_oneRef.mp found
    obtain ⟨rfl, -⟩ := lookup_oneRef.mp found'
    decide

def lineBody : Body := sourceBody oneRef mainRef lineOne

def lineWorld : World lineGit :=
  ((created mainRef 1).putPack (packEntry lineOne)).commit 0 (.importRefs lineBody) 2 lineBody

def createDelta : Delta :=
  ⟨[⟨objectTwo, 2, [objectOne]⟩], [⟨otherRef, nullOID, objectTwo⟩], [packBoth]⟩

def dropDelta : Delta := ⟨[], [⟨otherRef, objectTwo, nullOID⟩], [packOne]⟩

def spelledRef (delta : Delta) : IndexRef :=
  ⟨reachabilityDeltaKey (deltaCode.text delta), deltaCode.text delta, 0⟩

def linePlan (base : Root) (u : UpdateCommand) (refs : RefMap) (made : Repack) (delta : Delta) :
    Plan :=
  ⟨base, [(u.refname, u.newOID)], [], refs, some (packEntry made),
    draftBody base.body (.inline refs) made ⟨some (spelledRef delta), versionTag base.manifestVersion⟩⟩

def linePush (σ : World lineGit) (request : ReceivePack.Request lineGit.checkRefFormat)
    (u : UpdateCommand) (refs : RefMap) (made : Repack) (delta : Delta) : Job lineGit :=
  .push ⟨request, σ.root, [(u, .pending)]⟩ (linePlan σ.root u refs made delta)

/-- The root of a world, as far as the next push looks at it. -/
structure LineRoot (σ : World lineGit) (refs : RefMap) (index : Index) : Prop where
  valid : validateBody σ.root.body = .ok ()
  inline : σ.root.body.refShards = []
  refs : σ.root.body.refs = refs
  branch : σ.root.body.defaultBranch = mainRef
  refers : Refers spelledStore σ.root.body (some index)

theorem LineRoot.listed (root : LineRoot σ refs index) :
    list spelledHashing σ.objects σ.root.body = .ok refs := by
  rw [list_inline root.inline, root.refs]

/-- What a push of one command brings to a commit. -/
structure LinePush (refs : RefMap) (index : Index) (u : UpdateCommand) (after : RefMap)
    (made : Repack) (newOIDs : List OID) (delta : Delta) : Prop where
  staged : applyUpdates [(u.refname, u.newOID)] refs = after
  named : checkRefnames [(u.refname, u.newOID)] = .ok ()
  main : (after.lookup mainRef).isSome = true
  tips : tipsIn (lineGit.contents made.packID) after = true
  names : ∀ name ∈ after, Utf8.Valid name
  packed : PacksAll lineGit after made.packID
  hashes : Hashes lineCommits spelledStore after made
  new : NewCommits lineCommits refs [(u.refname, u.newOID)] newOIDs
  recorded : buildDelta lineCommits (generations index.graph index.deltas) newOIDs [u]
    (parseOID made.packID).toList = delta
  counted : delta.commits.forM checkParentCount = .ok ()

def linePushed (σ : World lineGit) (t : ThreadId)
    (request : ReceivePack.Request lineGit.checkRefFormat) (u : UpdateCommand) (after : RefMap)
    (made : Repack) (delta : Delta) (version : Nat) : World lineGit :=
  (σ.putPack (packEntry made)).commit t (linePush σ request u after made delta) version
    (linePlan σ.root u after made delta).body

theorem LineRoot.pushed (root : LineRoot σ refs index) (t : ThreadId)
    (request : Request lineGit.checkRefFormat) (u : UpdateCommand) (delta : Delta)
    (version : Nat) (graphHash : made.commitGraphHash = graphCode.text graph)
    (mapHash : made.objectMapHash = tableCode.text table) :
    LineRoot (linePushed σ t request u after made delta version) after
      ⟨graph, table, index.deltas ++ [delta]⟩ := by
  refine ⟨?_, rfl, rfl, root.branch, ?_, ?_, ?_⟩
  · show validateBody (draftBody _ _ _ _) = _
    exact validateBody_inline rfl rfl
  · show some _ = some (commitGraphRef spelledStore graph)
    rw [graphHash]
    rfl
  · show some _ = some (objectMapRef spelledStore table)
    rw [mapHash]
    rfl
  · show chainRefs (patchReachability σ.root.body.indexes.reachability
      ⟨some (spelledRef delta), versionTag σ.root.manifestVersion⟩) = _
    rw [chainRefs_patch, map_append, ← root.refers.chain]
    rfl

theorem reached_push (reached : IndexReached spelledHashing lineCommits spelledStore first s)
    (t : ThreadId) (idle : s.threads t = .idle) (root : LineRoot s.shared refs index)
    (request : Request lineGit.checkRefFormat) {u : UpdateCommand} {newOIDs : List OID}
    {delta : Delta} (version : Nat)
    (through : gate request.isAtomic (precheckUpdates (.ok refs) request.updates) =
      .inr [(u, .pending)]) (push : LinePush refs index u after made newOIDs delta)
    (unused : ∀ r ∈ (s.shared.putPack (packEntry made)).history, r.version ≠ version) :
    IndexReached spelledHashing lineCommits spelledStore first
      (Interleave.advance s t (linePushed s.shared t request u after made delta version)
        (.landed (linePush s.shared request u after made delta)
          (linePlan s.shared.root u after made delta).body)) := by
  have accepted := accept_indexed reached t idle request (root.listed ▸ through)
  have occupied : after ≠ ∅ := by
    rintro rfl
    exact absurd push.main (by simp)
  have guarded : guardDefaultBranch spelledHashing s.shared.objects s.shared.root.body
      (.inline after) = .ok () := by
    have before : RefStore.lookup spelledHashing s.shared.objects s.shared.root.body mainRef =
        .ok (refs.lookup mainRef) := by
      simp [RefStore.lookup, root.inline, root.refs]
    have kept : after.lookup s.shared.root.body.defaultBranch ≠ none := by
      rw [root.branch]
      exact Option.isSome_iff_ne_none.mp push.main
    simp [guardDefaultBranch, root.branch, before, Stage.lookup, kept, Results.require]
  have staged : applyUpdates [(u.refname, u.newOID)] s.shared.root.body.refs = after := by
    rw [root.refs, push.staged]
  have branch : Utf8.Valid s.shared.root.body.defaultBranch := by
    rw [root.branch]
    rfl
  have built : Importer.prepare spelledHashing lineGit s.shared.objects s.shared.root
      ⟨after, lineGit.contents made.packID⟩ [(u.refname, u.newOID)] made
      ⟨some (spelledRef delta), versionTag s.shared.root.manifestVersion⟩ =
        .ok (linePlan s.shared.root u after made delta) :=
    prepare_inline root.valid root.inline staged push.named guarded push.tips occupied push.tips
      branch push.names
  have building := build_indexed accepted built push.packed rfl push.hashes
    ⟨refs, newOIDs, root.listed, push.new, makeDelta_of_indexed root.refers.graph root.refers.chain
      (cons_ne_nil u []) push.recorded push.counted⟩
  refine commit_indexed building (fun _ => none) version ?_ rfl unused
  rw [(putPack_keeps _ _).1]
  exact if_neg (not_not.mpr rfl)

theorem newCommits_create : NewCommits lineCommits oneRef [(otherRef, objectTwo)] [objectTwo] := by
  refine ⟨by simp, fun oid => ?_⟩
  simp only [List.mem_singleton, exists_eq_left, reach_lineGit, lineReach_two, reached_oneRef]
  constructor
  · rintro rfl
    decide
  · rintro ⟨commit, ⟨-, member⟩, outside⟩
    revert commit outside
    simp only [Finset.mem_insert, Finset.mem_singleton] at member
    rcases member with rfl | rfl | rfl <;> decide

theorem newCommits_drop (before : RefMap) :
    NewCommits lineCommits before [(otherRef, nullOID)] [] := by
  refine ⟨by simp, fun oid => ?_⟩
  simp only [not_mem_nil, List.mem_singleton, exists_eq_left, false_iff]
  rintro ⟨-, ⟨kept, -⟩, -⟩
  exact absurd kept (by decide)

theorem reached_line : IndexReached spelledHashing lineCommits spelledStore (start mainRef 1)
    (Interleave.advance (start mainRef 1) 0 lineWorld (.landed (.importRefs lineBody) lineBody)) := by
  have built : importBody lineSource mainRef lineOne = .ok lineBody := rfl
  have initial : IndexReached spelledHashing lineCommits spelledStore (start mainRef 1 : System lineGit)
      (start mainRef 1) := ⟨[], .nil, by simp⟩
  have crafted : (Phase.importing lineBody.packs.head? lineBody).Crafted spelledHashing lineCommits
      spelledStore (created mainRef 1) := ⟨lineSource, mainRef, lineOne, built, fun _ => hashes_one⟩
  have imported := initial.take 0 rfl ⟨.importSource built fun _ => packsAll_lineOne, crafted⟩ trivial
  have ready := (imported.again ⟨.importUpload, crafted⟩ trivial).again ⟨.importReady, trivial⟩ trivial
  exact commit_indexed ready (fun _ => none) 2 rfl rfl (by decide)

theorem names_oneRef : ∀ name ∈ oneRef, Utf8.Valid name := by
  intro name member
  obtain ⟨oid, found⟩ := Finmap.mem_iff.mp member
  obtain ⟨rfl, -⟩ := lookup_oneRef.mp found
  rfl

theorem names_bothRefs : ∀ name ∈ bothRefs, Utf8.Valid name := by
  intro name member
  rcases mem_bothRefs.mp member with rfl | rfl <;> rfl

theorem push_create {deltas : List Delta}
    (known : buildDelta lineCommits (generations oneGraph deltas) [objectTwo] [restoreBranch]
      [packBoth] = createDelta) :
    LinePush oneRef ⟨oneGraph, table, deltas⟩ restoreBranch bothRefs lineBoth [objectTwo]
      createDelta where
  staged := by decide
  named := by decide
  main := by decide
  tips := by decide
  names := names_bothRefs
  packed := packsAll_lineBoth
  hashes := hashes_both
  new := newCommits_create
  recorded := known
  counted := by decide

theorem push_drop (index : Index) :
    LinePush bothRefs index dropBranch oneRef lineOne [] dropDelta where
  staged := by decide
  named := by decide
  main := by decide
  tips := by decide
  names := names_oneRef
  packed := packsAll_lineOne
  hashes := hashes_one
  new := newCommits_drop bothRefs
  recorded := rfl
  counted := rfl

def branchWorld : World lineGit :=
  linePushed lineWorld 1 restoreRequest restoreBranch bothRefs lineBoth createDelta 3

def prunedWorld : World lineGit :=
  linePushed branchWorld 2 dropRequest dropBranch oneRef lineOne dropDelta 4

def againWorld : World lineGit :=
  linePushed prunedWorld 3 restoreRequest restoreBranch bothRefs lineBoth createDelta 5

theorem root_line : LineRoot lineWorld oneRef ⟨oneGraph, oneTable, []⟩ :=
  ⟨rfl, rfl, rfl, rfl, rfl, rfl, rfl⟩

theorem root_branch : LineRoot branchWorld bothRefs ⟨bothGraph, bothTable, [createDelta]⟩ :=
  root_line.pushed 1 restoreRequest restoreBranch createDelta 3 rfl rfl

theorem root_pruned : LineRoot prunedWorld oneRef ⟨oneGraph, oneTable, [createDelta, dropDelta]⟩ :=
  root_branch.pushed 2 dropRequest dropBranch dropDelta 4 rfl rfl

theorem root_again : LineRoot againWorld bothRefs
    ⟨bothGraph, bothTable, [createDelta, dropDelta, createDelta]⟩ :=
  root_pruned.pushed 3 restoreRequest restoreBranch createDelta 5 rfl rfl

theorem LineRoot.read (root : LineRoot σ refs index) :
    unmarshalBody σ.root.body = .ok σ.root.body := by
  simp [unmarshalBody, root.valid]

theorem reached_again : ∃ threads,
    IndexReached spelledHashing lineCommits spelledStore (start mainRef 1) ⟨againWorld, threads⟩ ∧
      threads 5 = .snapshot branchWorld.root.body ∧ threads 6 = .snapshot prunedWorld.root.body := by
  have through : gate restoreRequest.isAtomic
      (precheckUpdates (.ok oneRef) restoreRequest.updates) = .inr [(restoreBranch, .pending)] := by
    decide
  have branch := reached_push reached_line 1 rfl root_line restoreRequest 3 through
    (push_create (by decide)) (by decide)
  have older := branch.take 5 rfl ⟨.snapshot root_branch.read, trivial⟩ trivial
  have pruned := reached_push older 2 rfl root_branch dropRequest 4 (by decide)
    (push_drop _) (by decide)
  have newer := pruned.take 6 rfl ⟨.snapshot root_pruned.read, trivial⟩ trivial
  have again := reached_push newer 3 rfl root_pruned restoreRequest 5 through
    (push_create (by decide)) (by decide)
  exact ⟨_, again, rfl, rfl⟩

def lineMerge (m0 : Body) (made : Repack) (base : String) : MergeInput :=
  ⟨m0.packs.map PackEntry.packKey, packEntry made,
    ⟨objectMapKey made.objectMapHash, made.objectMapHash, 0⟩,
    ⟨commitGraphKey made.commitGraphHash, made.commitGraphHash, 0⟩, snapshotDeltas m0, base⟩

def lineRepacked (σ : World lineGit) (t : ThreadId) (m0 : Body) (made : Repack) (base : String)
    (version : Nat) : World lineGit :=
  (σ.putPack (packEntry made)).commit t (.repack m0 (lineMerge m0 made base)) version
    (buildMergedBody σ.root.body (lineMerge m0 made base))

theorem reached_repack (reached : IndexReached spelledHashing lineCommits spelledStore first s)
    (t : ThreadId) (stands : s.threads t = .snapshot m0) {refs0 : RefMap}
    (root : LineRoot s.shared refs index) (names : ∀ name ∈ refs, Utf8.Valid name)
    (start : m0.refs = refs0) (occupied : refs0 ≠ ∅) (packs : m0.packs ≠ [])
    (packed : PacksAll lineGit refs0 made.packID)
    (hashes : Hashes lineCommits spelledStore refs0 made) (base : String) (version : Nat)
    (unused : ∀ r ∈ (s.shared.putPack (packEntry made)).history, r.version ≠ version) :
    IndexReached spelledHashing lineCommits spelledStore first
      (Interleave.advance s t (lineRepacked s.shared t m0 made base version)
        (.landed (.repack m0 (lineMerge m0 made base))
          (buildMergedBody s.shared.root.body (lineMerge m0 made base)))) := by
  subst start
  have repackOf : RepackOf lineGit m0 (lineMerge m0 made base) := ⟨.refl _, rfl, packed, rfl⟩
  have crafted : (Phase.repacked m0 (lineMerge m0 made base)).Crafted spelledHashing lineCommits
      spelledStore s.shared := by
    obtain ⟨table, graph, indexes, mapHash, graphHash⟩ := hashes
    refine ⟨table, graph, indexes, ?_, ?_⟩
    · rw [lineMerge, mapHash]
      rfl
    · rw [lineMerge, graphHash]
      rfl
  have built := reached.take t stands ⟨.repack occupied packs repackOf, crafted⟩ trivial
  have uploaded := built.again ⟨.uploadRepack, trivial⟩ trivial
  refine commit_indexed uploaded (fun _ => none) version ?_ rfl unused
  rw [(putPack_keeps _ _).1]
  have merged : marshalBody (buildMergedBody s.shared.root.body (lineMerge m0 made base)) =
      .ok (buildMergedBody s.shared.root.body (lineMerge m0 made base)) := by
    apply marshalBody_stable
    · exact validateBody_inline rfl rfl
    · show Utf8.Valid s.shared.root.body.defaultBranch
      rw [root.branch]
      rfl
    · show ∀ name ∈ s.shared.root.body.refs, Utf8.Valid name
      rw [root.refs]
      exact names
  simp [Job.callback, root.read, merged, checked]

theorem LineRoot.repacked (root : LineRoot σ refs index) (t : ThreadId) {start : Option Index}
    (started : Refers spelledStore m0 start) (base : String) (version : Nat)
    (graphHash : made.commitGraphHash = graphCode.text graph)
    (mapHash : made.objectMapHash = tableCode.text table) :
    LineRoot (lineRepacked σ t m0 made base version) refs
      ⟨graph, table, index.deltas.filter fun delta => delta ∉ deltasOf start⟩ := by
  refine ⟨?_, rfl, ?_, ?_, ?_, ?_, ?_⟩
  · show validateBody (buildMergedBody _ _) = _
    exact validateBody_inline rfl rfl
  · exact root.refs
  · exact root.branch
  · show some _ = some (commitGraphRef spelledStore graph)
    rw [lineMerge, graphHash]
    rfl
  · show some _ = some (objectMapRef spelledStore table)
    rw [lineMerge, mapHash]
    rfl
  · show chainRefs (trimConsumedByHash σ.root.body.indexes.reachability (snapshotDeltas m0) base
      true) = _
    rw [chainRefs_trim, ← started.survivors_eq, ← filter_chain, ← root.refers.chain]
    rfl

def olderWorld : World lineGit :=
  lineRepacked againWorld 5 branchWorld.root.body lineBoth "v00000003" 6

def newerWorld : World lineGit :=
  lineRepacked againWorld 6 prunedWorld.root.body lineOne "v00000004" 6

theorem root_older : LineRoot olderWorld bothRefs ⟨bothGraph, bothTable, [dropDelta]⟩ :=
  root_again.repacked 5 root_branch.refers "v00000003" 6 rfl rfl

theorem root_newer : LineRoot newerWorld bothRefs ⟨oneGraph, oneTable, []⟩ :=
  root_again.repacked 6 root_pruned.refers "v00000004" 6 rfl rfl

theorem reached_older : ∃ s, s.shared = olderWorld ∧
    IndexReached spelledHashing lineCommits spelledStore (start mainRef 1) s := by
  obtain ⟨threads, reached, older, -⟩ := reached_again
  exact ⟨_, rfl, reached_repack reached 5 older root_again names_bothRefs root_branch.refs
    (by decide) (by decide) packsAll_lineBoth hashes_both "v00000003" 6
    (show ∀ r ∈ (againWorld.putPack (packEntry lineBoth)).history, r.version ≠ 6 by decide)⟩

theorem reached_newer : ∃ s, s.shared = newerWorld ∧
    IndexReached spelledHashing lineCommits spelledStore (start mainRef 1) s := by
  obtain ⟨threads, reached, -, newer⟩ := reached_again
  exact ⟨_, rfl, reached_repack reached 6 newer root_again names_bothRefs root_pruned.refs
    (by decide) (by decide) packsAll_lineOne hashes_one "v00000004" 6
    (show ∀ r ∈ (againWorld.putPack (packEntry lineOne)).history, r.version ≠ 6 by decide)⟩

theorem fit_of_inline (inline : ∀ link ∈ σ.links, link.prev.body.refShards = []) :
    ∀ link ∈ σ.links, NamesFit link :=
  fun link member _ _ _ sharded => absurd (inline link member) sharded

theorem fit_older : ∀ link ∈ olderWorld.links, NamesFit link := fit_of_inline (by decide)

theorem pushes_again : ∀ link ∈ againWorld.links, link.job.snapshot = none := by decide

theorem objectIDs_bothRefs : ObjectIDs bothRefs := by
  intro name oid found
  rcases lookup_bothRefs.mp found with ⟨-, rfl⟩ | ⟨-, rfl⟩ <;> decide

/-! ### What a trim leaves -/

/-- Over a chain that still has some of the deltas of the snapshot, and then the appended ones,
the trim leaves the appended ones exactly when none of them has the hash of a consumed delta. -/
theorem trim_leaves_appended_iff (m0 : Body) {prev : Option ReachabilityRef}
    {left appended : List IndexRef} (image : chainRefs prev = left ++ appended)
    (removed : left.Sublist (Reachability.deltaRefs m0)) (base : String) (advance : Bool) :
    chainRefs (trimConsumedByHash prev (snapshotDeltas m0) base advance) = appended ↔
      ∀ delta ∈ appended, delta.hash ∉ snapshotDeltas m0 := by
  have consumed : left.filter (fun delta => delta.hash ∉ snapshotDeltas m0) = [] := by
    rw [filter_eq_nil_iff, snapshotDeltas_eq]
    intro delta member
    simpa using ⟨delta, removed.subset member, rfl⟩
  rw [chainRefs_trim, image, filter_append, consumed]
  simp

theorem trim_leaves_appended_sample :
    chainRefs (trimConsumedByHash prunedWorld.root.body.indexes.reachability
      (snapshotDeltas branchWorld.root.body) "v00000003" true) = [spelledRef dropDelta] := by
  have image : chainRefs prunedWorld.root.body.indexes.reachability =
      [spelledRef createDelta] ++ [spelledRef dropDelta] := root_pruned.refers.chain
  have started : [spelledRef createDelta] = Reachability.deltaRefs branchWorld.root.body :=
    root_branch.refers.chain.symm
  refine (trim_leaves_appended_iff branchWorld.root.body image (started ▸ .refl _) _ true).mpr ?_
  rw [List.forall_mem_singleton, snapshotDeltas_eq, ← started, List.map_singleton,
    List.mem_singleton]
  exact fun same => absurd (deltaCode.text_injective same) (by decide)

/-- The repack that started without the branch trims the delta of the push that created it
again: it has the contents of the one that created it first. -/
theorem recreated_delta_trimmed :
    chainRefs againWorld.root.body.indexes.reachability =
        Reachability.deltaRefs prunedWorld.root.body ++ [spelledRef createDelta] ∧
      chainRefs (trimConsumedByHash againWorld.root.body.indexes.reachability
        (snapshotDeltas prunedWorld.root.body) "v00000004" true) = [] ∧
      ∃ s, s.shared = newerWorld ∧
        IndexReached spelledHashing lineCommits spelledStore (start mainRef 1) s := by
  refine ⟨root_again.refers.chain.trans (congrArg (· ++ _) root_pruned.refers.chain.symm), ?_,
    reached_newer⟩
  exact root_newer.refers.chain

end BucketVcs.Writers
