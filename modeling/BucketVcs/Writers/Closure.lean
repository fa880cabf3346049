import BucketVcs.Writers.Progress

/-! Object closure: the packs a root lists hold every object its refs reach. -/

namespace BucketVcs.Writers

open Manifest RefStore Importer ReceivePack Maintenance Transition List

variable {git : Git} {h : Hashing} {σ : World git}

def Packed (git : Git) (packs : List PackEntry) (oid : OID) : Prop :=
  ∃ pack ∈ packs, oid ∈ git.contents pack.packID

/-- Every object reachable from a ref of the body is in one of its packs. -/
def Closed (h : Hashing) (σ : World git) (body : Body) : Prop :=
  ∃ refs, RefStore.list h σ.objects body = .ok refs ∧
    ∀ oid, ReachedFrom git refs oid → Packed git body.packs oid

def packsSince (m0 current : Body) : List PackEntry :=
  current.packs.filter fun pack => pack.packKey ∉ m0.packs.map PackEntry.packKey

/-- A repack takes away only packs it does not need: what the refs of the replaced root
reach was reachable at the run's start, or is in a pack that came later. -/
def RepackCovers (link : Link git) : Prop :=
  ∀ m0 input, link.job = .repack m0 input → ∀ oid, ReachedFrom git link.prev.body.refs oid →
    ReachedFrom git m0.refs oid ∨ Packed git (packsSince m0 link.prev.body) oid

variable {refs : RefMap} {oid : OID} {body : Body} {plan : Plan} {before after : RefMap}
  {pack : PackEntry} {m0 : Body} {input : MergeInput} {link : Link git}

theorem PacksAll.reaches {id : PackID} (packs : PacksAll git refs id) {tip : OID}
    (member : tip ∈ git.contents id) (reach : Reach git tip oid) : oid ∈ git.contents id := by
  obtain ⟨name, root, found, before⟩ := (packs.exactly tip).mp member
  exact (packs.exactly oid).mpr ⟨name, root, found, before.trans reach⟩

theorem closed_of_empty (listed : list h σ.objects body = .ok ∅) : Closed h σ body := by
  refine ⟨∅, listed, ?_⟩
  rintro oid ⟨name, tip, found, -⟩
  simp at found

theorem Pushed.contains (pushed : Pushed h σ plan before after) (planned : Planned h σ plan)
    (packed : plan.pack = some pack) (reached : ReachedFrom git after oid) :
    oid ∈ git.contents pack.packID := by
  obtain ⟨objects, bareRefs, made, patch, stage, -, -, prepared, packs⟩ := planned.prepared
  rcases prepared.body with ⟨-, unpacked, -⟩ | ⟨-, here, tips, -⟩
  · cases unpacked.symm.trans packed
  · cases here.symm.trans packed
    obtain ⟨name, tip, found, reach⟩ := reached
    obtain ⟨written, held, -⟩ := pushed.values name tip found
    exact (packs (by simp [here])).reaches (tipsIn_iff.mp tips written tip held) reach

theorem Pushed.closed (pushed : Pushed h σ plan before after) (planned : Planned h σ plan) :
    Closed h σ plan.body := by
  obtain ⟨objects, bareRefs, made, patch, stage, -, -, prepared, -⟩ := planned.prepared
  rcases prepared.body with ⟨-, -, marshalled⟩ | ⟨-, packed, -, marshalled⟩
  all_goals have shape := (marshalBody_ok marshalled).2.2
  · apply closed_of_empty
    rw [shape]
    exact congrArg Except.ok (decodeRefs_encodeRefs_eq_empty.mpr rfl)
  · refine ⟨after, pushed.lists.listed, fun oid reached => ⟨packEntry made, ?_, ?_⟩⟩
    · rw [shape]
      exact mem_singleton_self _
    · exact pushed.contains planned packed reached

theorem Imported.contains (imported : Imported git body) (reached : ReachedFrom git body.refs oid) :
    Packed git body.packs oid := by
  obtain ⟨source, defaultBranch, made, built, packed⟩ := imported
  have checks := importBody_ok built
  obtain ⟨name, tip, found, reach⟩ := reached
  rw [checks.refs] at found
  obtain ⟨written, held, -⟩ := lookup_decodeRefs_encodeRefs found
  have occupied : source.refs ≠ ∅ := by
    rintro empty
    simp [empty] at held
  refine ⟨packEntry made, ?_, ?_⟩
  · rw [(marshalBody_ok checks.marshalled).2.2]
    simp [sourceBody, occupied]
  · exact (packed occupied).reaches (tipsIn_iff.mp checks.packed written tip held) reach

theorem Imported.contains_only (imported : Imported git body) (packs : body.packs = [pack])
    (reached : ReachedFrom git body.refs oid) : oid ∈ git.contents pack.packID := by
  obtain ⟨entry, inside, held⟩ := imported.contains reached
  rw [packs] at inside
  cases mem_singleton.mp inside
  exact held

theorem Imported.closed (imported : Imported git body) : Closed h σ body :=
  ⟨body.refs, list_inline imported.inline, fun _ reached => imported.contains reached⟩

theorem RepackOf.mem_keys (made : RepackOf git m0 input) {key : Key} :
    key ∈ input.p0Keys ↔ key ∈ m0.packs.map PackEntry.packKey :=
  made.consolidated.mem_iff

theorem packed_merged {prev : Body} (made : RepackOf git m0 input) :
    Packed git (buildMergedBody prev input).packs oid ↔
      ReachedFrom git m0.refs oid ∨ Packed git (packsSince m0 prev) oid := by
  rw [← made.packed.exactly oid]
  simp only [Packed, buildMergedBody, mem_cons, made.mem_keys]
  constructor
  · rintro ⟨pack, rfl | inside, held⟩
    · exact .inl held
    · exact .inr ⟨pack, inside, held⟩
  · rintro (held | ⟨pack, inside, held⟩)
    · exact ⟨_, .inl rfl, held⟩
    · exact ⟨pack, .inr inside, held⟩

/-- A repack leaves a closed root exactly if it covers the refs of the root it replaced. -/
theorem Global.repack_closed_iff (global : Global h σ) (member : link ∈ σ.links)
    (job : link.job = .repack m0 input) : Closed h σ link.next.body ↔ RepackCovers link := by
  have linked := global.linked link member
  have sound := global.sound (global.chained.prev_mem member)
  obtain ⟨trailer, built⟩ := linked.body_built
  have ok := linked.job
  rw [job] at built ok
  have listed := (sound.rebuilt (linked.sound sound) built rfl rfl rfl).listed
  have packs : link.next.body.packs = (buildMergedBody link.prev.body input).packs := by
    rw [(marshalBody_ok built).2.2]
  constructor
  · rintro ⟨refs, again, closed⟩ m0' input' same oid reached
    cases job.symm.trans same
    cases Except.ok.inj (listed.symm.trans again)
    have held := closed oid reached
    rwa [packs, packed_merged ok.2.1] at held
  · intro covers
    refine ⟨_, listed, fun oid reached => ?_⟩
    rw [packs, packed_merged ok.2.1]
    exact covers m0 input job oid reached

theorem packed_backfill {trailer : Key → Option String} {packs : List PackEntry}
    (held : Packed git packs oid) : Packed git (packs.map (backfillPack trailer)) oid := by
  obtain ⟨pack, member, inside⟩ := held
  refine ⟨_, mem_map_of_mem member, ?_⟩
  have same : (backfillPack trailer pack).packID = pack.packID := by
    unfold backfillPack
    split
    · rfl
    · split <;> rfl
  rwa [same]

theorem Lists.reaches (lists : Lists h σ body refs) (sound : Sound h σ body)
    (reached : ReachedFrom git body.refs oid) : ReachedFrom git refs oid := by
  rcases validateBody_ok sound.valid with ⟨inline, -⟩ | ⟨-, empty, -⟩
  · rwa [lists.unique (sound.lists_inline inline)]
  · obtain ⟨name, tip, found, -⟩ := reached
    simp [empty] at found

theorem Global.closed_step (global : Global h σ) (member : link ∈ σ.links)
    (lists : Lists h σ link.prev.body before) (closed : Closed h σ link.prev.body)
    (fit : NamesFit link) (covers : RepackCovers link) : Closed h σ link.next.body := by
  have linked := global.linked link member
  obtain ⟨after, listed, follows⟩ := global.follows member lists fit
  obtain ⟨refs, again, packed⟩ := closed
  cases Except.ok.inj (lists.listed.symm.trans again)
  obtain ⟨trailer, built⟩ := linked.body_built
  have ok := linked.job
  have based := linked.based
  cases job : link.job with
  | push p plan =>
    rw [job] at built follows ok
    rw [built.2]
    exact follows.closed ok.2.1
  | importRefs body =>
    rw [job] at built ok
    rw [built.2]
    exact ok.1.closed
  | repack m0 input => exact (global.repack_closed_iff member job).mpr covers
  | compact m0 input =>
    rw [job] at built follows
    refine ⟨after, listed.listed, fun oid reached => ?_⟩
    rw [show after = link.prev.body.refs from follows] at reached
    rw [(marshalBody_ok built.2).2.2]
    exact packed oid (lists.reaches (global.sound (global.chained.prev_mem member)) reached)
  | bundle fresh =>
    rw [job] at built follows
    obtain ⟨bundles, -, marshalled⟩ := built
    refine ⟨after, listed.listed, ?_⟩
    rw [(marshalBody_ok marshalled).2.2, show after = before from follows]
    exact packed
  | backfill m0 =>
    rw [job] at built follows
    refine ⟨after, listed.listed, fun oid reached => ?_⟩
    rw [show after = before from follows] at reached
    rw [(marshalBody_ok built).2.2]
    exact packed_backfill (packed oid reached)
  | reshard start =>
    rw [job] at built follows based
    obtain rfl := based start rfl
    refine ⟨after, listed.listed, ?_⟩
    rw [(marshalBody_ok built.2).2.2, show after = before from follows]
    exact packed

theorem Global.closed (global : Global h σ) (empty : σ.origin.body.refShards = [])
    (fresh : σ.origin.body.refs = ∅) (covers : ∀ link ∈ σ.links, RepackCovers link)
    (fit : ∀ link ∈ σ.links, NamesFit link) : ∀ root ∈ σ.history, Closed h σ root.body := by
  refine global.chained.invariant (P := fun root => Closed h σ root.body) ?_ ?_
  · apply closed_of_empty
    rw [list_inline empty, fresh]
  · intro link member closed
    obtain ⟨before, lists⟩ := global.lists empty fit (global.chained.prev_mem member)
    exact global.closed_step member lists closed (fit link member) (covers link member)

/-- In every run whose repack commits cover the refs of the roots they replace, and whose
pushes over sharded roots name their refs in UTF-8, every root that becomes current lists
packs that hold all objects reachable from its refs. -/
theorem reachable_objects_stay_packed (defaultBranch : RefName) (version : Nat)
    (valid : Utf8.Valid defaultBranch)
    (events : List (Event (System git) (ThreadId × Label))) (s : System git)
    (run : Run (Step h) (start defaultBranch version) events s)
    (covers : ∀ link ∈ s.shared.links, RepackCovers link)
    (fit : ∀ link ∈ s.shared.links, NamesFit link) :
    ∀ root ∈ s.shared.history, Closed h s.shared root.body := by
  have global := (run_safe valid run).global
  have origin := run_origin run
  have empty : s.shared.origin.body.refShards = [] := by rw [origin]; rfl
  have fresh : s.shared.origin.body.refs = ∅ := by rw [origin]; rfl
  exact global.closed empty fresh covers fit

/-! Two repacks and two pushes. The first repack keeps the pack of a branch that was deleted
meanwhile; the second starts from there, and before it commits the branch is created again
and its pack gets the same id. -/

def dropBranch : UpdateCommand := ⟨otherRef, objectTwo, nullOID⟩

def restoreBranch : UpdateCommand := ⟨otherRef, nullOID, objectTwo⟩

def dropRequest : ReceivePack.Request sampleGit.checkRefFormat :=
  singleRequest dropBranch (by decide) (by decide) (by decide) (by decide)

def restoreRequest : ReceivePack.Request sampleGit.checkRefFormat :=
  singleRequest restoreBranch (by decide) (by decide) (by decide) (by decide)

def droppedPlan : Plan := inlinePlan importedWorld.root [(otherRef, nullOID)] packOne

def droppedWorld : World sampleGit :=
  (importedWorld.putPack (packEntry (sampleRepack packOne))).commit 2
    (.push ⟨dropRequest, importedWorld.root, [(dropBranch, .pending)]⟩ droppedPlan) 3 droppedPlan.body

def keptBody : Body := buildMergedBody droppedPlan.body sampleMerge

def keptWorld : World sampleGit :=
  droppedWorld.commit 1 (.repack importedBody sampleMerge) 4 keptBody

def secondMerge : MergeInput :=
  ⟨[canonicalPackKey packBoth, canonicalPackKey packOne], packEntry (sampleRepack packOne),
    ⟨"", "", 0⟩, ⟨"", "", 0⟩, [], "v00000004"⟩

def restoredPlan : Plan := inlinePlan keptWorld.root [(otherRef, objectTwo)] packBoth

def restoredWorld : World sampleGit :=
  keptWorld.commit 4 (.push ⟨restoreRequest, keptWorld.root, [(restoreBranch, .pending)]⟩ restoredPlan)
    5 restoredPlan.body

def lostWorld : World sampleGit :=
  restoredWorld.commit 3 (.repack keptBody secondMerge) 6
    (buildMergedBody restoredPlan.body secondMerge)

theorem reached_kept : ∃ s : System sampleGit, Reached spelledHashing (start mainRef 1) s ∧
    s.shared = keptWorld ∧ s.threads 3 = .idle ∧ s.threads 4 = .idle := by
  have made : RepackOf sampleGit importedBody sampleMerge := ⟨by decide, rfl, packsAll_both, rfl⟩
  have read : unmarshalBody importedWorld.root.body = .ok importedBody := rfl
  have snapshot := (reached_imported spelledHashing).take 1 rfl (.snapshot read) trivial
  have waiting :=
    (snapshot.again (.repack (by decide) (by decide) made) trivial).again .uploadRepack trivial
  have accepted := Reached.accept waiting 2 rfl dropRequest
    (show _ = Sum.inr [(dropBranch, Status.pending)] by decide)
  have dropping := accepted.build
    (show prepare spelledHashing sampleGit _ _ (bareOf oneRef) _ (sampleRepack packOne) ⟨none, ""⟩ =
      .ok droppedPlan by decide)
    packsAll_one rfl
  have dropped := dropping.commit (fun _ => none) 3 .applied
    (show _ = Except.ok droppedPlan.body from rfl) rfl (by decide)
  have ready := dropped.resume (t := 1)
    (show _ = Phase.ready (.repack importedBody sampleMerge) from rfl)
  have kept := Reached.commit ready (fun _ => none) 4 .applied
    (show _ = Except.ok keptBody by decide) rfl (by decide)
  exact ⟨_, kept, rfl, rfl, rfl⟩

theorem reached_lost :
    ∃ s : System sampleGit, Reached spelledHashing (start mainRef 1) s ∧ s.shared = lostWorld := by
  have made : RepackOf sampleGit keptBody secondMerge :=
    ⟨by decide, rfl, (show keptBody.refs = oneRef by decide) ▸ packsAll_one, rfl⟩
  have read : unmarshalBody keptWorld.root.body = .ok keptBody := by decide
  have through : gate restoreRequest.isAtomic
      (precheckUpdates (RefStore.list spelledHashing keptWorld.objects keptWorld.root.body)
        restoreRequest.updates) = .inr [(restoreBranch, .pending)] := by decide
  have built : prepare spelledHashing sampleGit keptWorld.objects keptWorld.root (bareOf bothRefs)
      [(otherRef, objectTwo)] (sampleRepack packBoth) ⟨none, ""⟩ = .ok restoredPlan := by
    decide
  have merged : (.repack keptBody secondMerge : Job sampleGit).callback spelledHashing
      (fun _ => none) restoredWorld.root = .ok (buildMergedBody restoredPlan.body secondMerge) := by
    decide
  have fifth : ∀ r ∈ keptWorld.history, r.version ≠ 5 := by decide
  have sixth : ∀ r ∈ restoredWorld.history, r.version ≠ 6 := by decide
  obtain ⟨⟨_, threads⟩, kept, rfl, third, fourth⟩ := reached_kept
  have snapshot := kept.take 3 third (.snapshot read) trivial
  have waiting :=
    (snapshot.again (.repack (by decide) (by decide) made) trivial).again .uploadRepack trivial
  have accepted := Reached.accept waiting 4 fourth restoreRequest through
  have restoring := accepted.build built packsAll_both rfl
  have restored := restoring.commit (fun _ => none) 5 .applied
    (show _ = Except.ok restoredPlan.body from rfl) rfl fifth
  have ready := restored.resume (t := 3)
    (show _ = Phase.ready (.repack keptBody secondMerge) from rfl)
  have lost := Reached.commit ready (fun _ => none) 6 .applied merged rfl sixth
  exact ⟨_, lost, rfl⟩

theorem repack_drops_reproduced_pack :
    ∃ events s, Run (Step spelledHashing) (start mainRef 1 : System sampleGit) events s ∧
      ∃ refs, RefStore.list spelledHashing s.shared.objects s.shared.root.body = .ok refs ∧
        refs.lookup otherRef = some objectTwo ∧
        ∀ pack ∈ s.shared.root.body.packs, objectTwo ∉ sampleGit.contents pack.packID := by
  obtain ⟨s, ⟨events, run, -⟩, shared⟩ := reached_lost
  refine ⟨events, s, run, ?_⟩
  rw [shared]
  exact ⟨restoredPlan.body.refs, by decide, by decide, by decide⟩

/-- Up to the first repack the sample run keeps to the condition, and stays closed. -/
theorem reachable_objects_stay_packed_sample :
    ∃ events s, Run (Step spelledHashing) (start mainRef 1 : System sampleGit) events s ∧
      s.shared.root.body = keptBody ∧
      ∀ root ∈ s.shared.history, Closed spelledHashing s.shared root.body := by
  obtain ⟨s, ⟨events, run, -⟩, shared, -, -⟩ := reached_kept
  refine ⟨events, s, run, by rw [shared]; rfl, ?_⟩
  apply reachable_objects_stay_packed mainRef 1 (by decide) events s run
  · rw [shared]
    intro link member m0 input job oid reached
    rcases mem_cons.mp member with rfl | older
    · cases job
      rw [show droppedWorld.root.body.refs = oneRef by decide] at reached
      obtain ⟨name, tip, found, reach⟩ := reached
      obtain ⟨-, rfl⟩ := lookup_oneRef.mp found
      exact .inl ⟨mainRef, _, lookup_bothRefs.mpr (.inl ⟨rfl, rfl⟩), reach⟩
    · rcases mem_cons.mp older with rfl | oldest
      · cases job
      · cases mem_singleton.mp oldest
        cases job
  · rw [shared]
    intro link member p plan job sharded
    rcases mem_cons.mp member with rfl | older
    · cases job
    · rcases mem_cons.mp older with rfl | oldest
      · exact absurd rfl sharded
      · cases mem_singleton.mp oldest
        cases job

end BucketVcs.Writers
