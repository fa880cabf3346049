import BucketVcs.Maintenance.Pipeline
import BucketVcs.Writers.Closure

/-! Compact-only runs: the callback compares the number of packs of the root it is handed with
that of the snapshot the commit graph was built from. -/

namespace BucketVcs.Writers

open Manifest RefStore Importer ReceivePack Maintenance Transition List

variable {git : Git} {h : Hashing} {σ σ' : World git} {t : ThreadId}

def packKeys (body : Body) : List Key := body.packs.map PackEntry.packKey

def SamePacks (left right : Body) : Prop := ∀ key, key ∈ packKeys left ↔ key ∈ packKeys right

theorem SamePacks.of_eq {left right : Body} (same : packKeys left = packKeys right) :
    SamePacks left right := by
  intro key
  rw [same]

theorem SamePacks.trans {a b c : Body} (first : SamePacks a b) (second : SamePacks b c) :
    SamePacks a c := fun key => (first key).trans (second key)

theorem length_packKeys (body : Body) : (packKeys body).length = body.packs.length :=
  length_map _

def Job.snapshotBody : Job git → Option Body
  | .backfill m0 => some m0
  | .compact m0 _ => some m0
  | _ => none

/-- The body a maintenance run works from, until it has committed. After a backfill it goes
on from the body it committed. -/
def Phase.snapshotBody : Phase git → Option Body
  | .snapshot m0 => some m0
  | .ready job => job.snapshotBody
  | .publishing job _ _ _ => job.snapshotBody
  | .landed (.backfill _) body => some body
  | _ => none

def Job.ownPacks : Job git → Bool
  | .push _ _ => true
  | .importRefs _ => true
  | .repack _ _ => true
  | _ => false

variable {job : Job git} {prev : Root} {body : Body} {phase phase' : Phase git} {l : Label}
  {m0 : Body} {s : System git}

theorem Global.packKeys_kept (global : Global h σ) {trailer : Key → Option String}
    (ok : JobOK h σ job) (member : prev ∈ σ.history)
    (returned : job.callback h trailer prev = .ok body) (borrowed : job.ownPacks = false) :
    packKeys body = packKeys prev.body := by
  have built := callback_ok returned
  have based := global.based ok member returned
  cases job with
  | push p plan | importRefs imported | repack m0 input => cases borrowed
  | compact m0 input =>
    rw [(marshalBody_ok built.2).2.2]
    rfl
  | bundle fresh =>
    obtain ⟨bundles, -, marshalled⟩ := built
    rw [(marshalBody_ok marshalled).2.2]
    rfl
  | backfill m0 =>
    have same : ∀ pack, (backfillPack trailer pack).packKey = pack.packKey := by
      intro pack
      unfold backfillPack
      split
      · rfl
      · split <;> rfl
    rw [(marshalBody_ok built).2.2]
    simp [packKeys, same]
  | reshard start =>
    obtain rfl := based start rfl
    rw [(marshalBody_ok built.2).2.2]
    rfl

theorem Move.replaced (moved : Move h t σ phase l σ' phase') :
    (σ'.root = σ.root ∧ σ'.links = σ.links) ∨
      ∃ job prev body version reply, phase = .publishing job prev body [] ∧ l = .cas true reply ∧
        σ.root.version = prev.version ∧ phase' = job.afterReply body reply ∧
        σ' = σ.replaceRoot ⟨t, job, σ.root, ⟨prev.manifestVersion + 1, version, body⟩⟩ := by
  have kept : ∀ (σ : World git) pack, (σ.putPack pack).root = σ.root := by
    intro σ pack
    unfold World.putPack
    split <;> rfl
  cases moved with
  | casTaken reply current unused =>
    exact .inr ⟨_, _, _, _, reply, rfl, rfl, current, rfl, rfl⟩
  | upload | importUpload | uploadRepack => exact .inl ⟨kept _ _, putPack_links _ _⟩
  | _ => exact .inl ⟨rfl, rfl⟩

theorem Job.failed_snapshotBody {reason : String}
    (after : (job.failed reason).snapshotBody = some m0) : job.snapshotBody = some m0 := by
  cases job with
  | backfill first => exact after
  | _ => cases after

theorem Move.snapshotBody (moved : Move h t σ phase l σ' phase')
    (after : phase'.snapshotBody = some m0) : phase.snapshotBody = some m0 ∨ m0 = σ'.root.body := by
  cases moved with
  | snapshot read =>
    cases after
    exact .inr (unmarshalBody_ok read).2
  | backfill | compact | call | putShard | casRefused => exact .inl after
  | callFails | giveUp | commitFails => exact .inl (Job.failed_snapshotBody after)
  | @casTaken job prev body version reply current unused =>
    cases reply with
    | applied =>
      cases job with
      | backfill first =>
        cases after
        exact .inr rfl
      | _ => cases after
    | mismatch => exact .inl after
    | failed committed => exact .inl (Job.failed_snapshotBody after)
  | @done job body other =>
    cases job with
    | backfill first => exact .inl after
    | _ => cases after
  | _ => cases after

/-- The number of packs tells whether the packs are those of the snapshot. -/
def CountTells (root : Root) (phase : Phase git) : Prop :=
  ∀ m0, phase.snapshotBody = some m0 → root.body.packs.length = m0.packs.length →
    SamePacks root.body m0

/-- A push, an import or a repack that lands leaves no run a root with as many packs as its
snapshot but other ones. -/
def CountsApart (e : Event (System git) (ThreadId × Label)) : Prop :=
  ∀ job prev body reply, e.pre.threads e.label.1 = .publishing job prev body [] →
    e.label.2 = .cas true reply → job.ownPacks = true →
    ∀ t m0, (e.pre.threads t).snapshotBody = some m0 → body.packs.length = m0.packs.length →
      SamePacks body m0

/-- What compact-only runs rest on, and what they have done. -/
structure Compacts (s : System git) : Prop where
  tells : ∀ t, CountTells s.shared.root (s.threads t)
  commits : ∀ link ∈ s.shared.links, ∀ m0 input, link.job = .compact m0 input →
    SamePacks link.prev.body m0

theorem Compacts.step {s' : System git} {l : ThreadId × Label} (compacts : Compacts s)
    (safe : Interleave.Safe (Global h) (Local h) s) (apart : CountsApart ⟨s, l, s'⟩)
    (step : Step h s l s') : Compacts s' := by
  obtain ⟨t, l⟩ := l
  obtain ⟨moved, others⟩ := step.moved
  -- it is enough to know what the new root is to the runs as they stood before the step
  have tells (known : ∀ other, CountTells s'.shared.root (s.threads other)) :
      ∀ other, CountTells s'.shared.root (s'.threads other) := by
    intro other m0 held lengths
    by_cases mover : other = t
    · subst mover
      rcases moved.snapshotBody held with before | fresh
      · exact known other m0 before lengths
      · exact fresh ▸ .of_eq rfl
    · rw [others other mover] at held
      exact known other m0 held lengths
  rcases moved.replaced with ⟨root, links⟩ |
    ⟨job, prev, body, version, reply, standing, rfl, current, -, shared⟩
  · refine ⟨tells ?_, ?_⟩
    · rw [root]
      exact compacts.tells
    · rw [links]
      exact compacts.commits
  · have stands := safe.thread t
    rw [standing] at stands
    obtain ⟨ok, -, member, ⟨trailer, returned⟩, -⟩ := stands
    have same : s.shared.root = prev :=
      safe.global.distinct _ safe.global.chained.current_mem _ member current
    refine ⟨tells ?_, ?_⟩
    · intro other m0 held lengths
      rw [shared] at lengths ⊢
      by_cases own : job.ownPacks = true
      · exact apart job prev body reply standing rfl own other m0 held lengths
      · have kept : packKeys body = packKeys s.shared.root.body := by
          rw [same]
          exact safe.global.packKeys_kept ok member returned (Bool.eq_false_iff.mpr own)
        have counted : s.shared.root.body.packs.length = m0.packs.length := by
          rw [← length_packKeys, ← kept, length_packKeys]
          exact lengths
        exact (SamePacks.of_eq kept).trans (compacts.tells other m0 held counted)
    · rw [shared]
      intro link inside m0 input compact
      rcases mem_cons.mp inside with rfl | older
      · have job : job = .compact m0 input := compact
        subst job
        have held : (s.threads t).snapshotBody = some m0 := by
          rw [standing]
          rfl
        apply compacts.tells t m0 held
        rw [same]
        exact (callback_ok returned).1
      · exact compacts.commits link older m0 input compact

/-- In a run in which no push, import or repack puts a root that only counts like the
snapshot of a maintenance run, every compact-only commit replaces a root with exactly the
packs of its snapshot. -/
theorem compact_only_packs (defaultBranch : RefName) (version : Nat)
    (valid : Utf8.Valid defaultBranch)
    (events : List (Event (System git) (ThreadId × Label))) (s : System git)
    (run : Run (Step h) (start defaultBranch version) events s)
    (apart : ∀ e ∈ events, CountsApart e) :
    ∀ link ∈ s.shared.links, ∀ m0 input, link.job = .compact m0 input →
      SamePacks link.prev.body m0 := by
  have allowed : ∀ e ∈ events, CountsApart e ∧ Interleave.Safe (Global h) (Local h) e.pre := by
    intro e member
    obtain ⟨-, earlier, before, -⟩ := run.before_event member
    exact ⟨apart e member, run_safe valid before⟩
  have init : Compacts (start defaultBranch version : System git) := by
    refine ⟨fun t m0 held => ?_, fun link member => ?_⟩
    · cases held
    · cases member
  have compacts : Compacts s := run.invariant init
    (fun _ _ _ compacts permitted step => compacts.step permitted.2 permitted.1 step) allowed
  exact compacts.commits

/-! A push leaves one pack and one delta, and a maintenance run starts that is to compact the
chain. Before it commits, another push lands with one pack of its own. -/

def deltaPlan (base : Root) (updates : Updates) (id : PackID) (delta : IndexRef) : Plan :=
  ⟨base, updates, [], applyUpdates updates base.body.refs, some (packEntry (sampleRepack id)),
    draftBody base.body (.inline (applyUpdates updates base.body.refs)) (sampleRepack id)
      ⟨some delta, "v00000002"⟩⟩

def firstDelta : IndexRef := ⟨reachabilityDeltaKey "d1", "d1", 100⟩

def secondDelta : IndexRef := ⟨reachabilityDeltaKey "d2", "d2", 100⟩

def trimmedPlan : Plan := deltaPlan importedWorld.root [(otherRef, nullOID)] packOne firstDelta

def trimmedWorld : World sampleGit :=
  (importedWorld.putPack (packEntry (sampleRepack packOne))).commit 1
    (.push ⟨dropRequest, importedWorld.root, [(dropBranch, .pending)]⟩ trimmedPlan) 3 trimmedPlan.body

def sampleTrailer : Key → Option String := fun _ => some "cccccccccccccccccccccccccccccccccccccccc"

def filledBody : Body :=
  { trimmedPlan.body with packs := trimmedPlan.body.packs.map (backfillPack sampleTrailer) }

def filledWorld : World sampleGit := trimmedWorld.commit 2 (.backfill trimmedPlan.body) 4 filledBody

def compactInput : CompactInput := ⟨⟨commitGraphKey "g1", "g1", 0⟩, ["d1"], "v00000004"⟩

def grownPlan : Plan := deltaPlan filledWorld.root [(otherRef, objectTwo)] packBoth secondDelta

def grownWorld : World sampleGit :=
  filledWorld.commit 3 (.push ⟨restoreRequest, filledWorld.root, [(restoreBranch, .pending)]⟩ grownPlan)
    5 grownPlan.body

def compactedWorld : World sampleGit :=
  grownWorld.commit 2 (.compact filledBody compactInput) 6
    (buildCompactOnlyBody grownPlan.body compactInput)

def compactOptions : RunOptions := ⟨⟨0, 0, 0, 0, 0, 10, 0, 0, 0⟩, false, false, false⟩

def sampleProbe : Probe :=
  ⟨fun _ => 0, fun _ => none, fun _ => none, sampleTrailer, true, 0, 0⟩

theorem chooses_compactOnly : runPipeline compactOptions sampleProbe trimmedPlan.body =
    .ok (.compactOnly (runStart filledBody)) := by decide

theorem reached_compacting : ∃ s : System sampleGit, Reached spelledHashing (start mainRef 1) s ∧
    s.shared = filledWorld ∧ s.threads 2 = .ready (.compact filledBody compactInput) ∧
    s.threads 3 = .idle := by
  have accepted := (reached_imported spelledHashing).accept 1 rfl dropRequest
    (show _ = Sum.inr [(dropBranch, Status.pending)] by decide)
  have dropping := accepted.build
    (show prepare spelledHashing sampleGit _ _ (bareOf oneRef) _ (sampleRepack packOne)
      ⟨some firstDelta, "v00000002"⟩ = .ok trimmedPlan by decide)
    packsAll_one rfl
  have dropped := dropping.commit (fun _ => none) 3 .applied
    (show _ = Except.ok trimmedPlan.body from rfl) rfl (by decide)
  have read : unmarshalBody trimmedWorld.root.body = .ok trimmedPlan.body := by decide
  have snapshot := dropped.take 2 rfl (.snapshot read) trivial
  have waiting := snapshot.again (.backfill (by decide)) trivial
  have filled := Reached.commit waiting sampleTrailer 4 .applied
    (show _ = Except.ok filledBody by decide) rfl (by decide)
  have again := filled.again (.done (fun _ _ => by intro other; cases other)) trivial
  have compacting := again.again (.compact (by decide) (by decide)
    (show compactInput.consumedHashes = snapshotDeltas filledBody by decide)) trivial
  exact ⟨_, compacting, rfl, rfl, rfl⟩

theorem reached_compacted :
    ∃ s : System sampleGit, Reached spelledHashing (start mainRef 1) s ∧ s.shared = compactedWorld := by
  have through : ReceivePack.gate restoreRequest.isAtomic
      (precheckUpdates (RefStore.list spelledHashing filledWorld.objects filledWorld.root.body)
        restoreRequest.updates) = .inr [(restoreBranch, .pending)] := by decide
  have built : prepare spelledHashing sampleGit filledWorld.objects filledWorld.root (bareOf bothRefs)
      [(otherRef, objectTwo)] (sampleRepack packBoth) ⟨some secondDelta, "v00000002"⟩ =
      .ok grownPlan := by decide
  have merged : (Job.compact filledBody compactInput : Job sampleGit).callback spelledHashing
      (fun _ => none) grownWorld.root = .ok (buildCompactOnlyBody grownPlan.body compactInput) := by
    decide
  have fifth : ∀ r ∈ filledWorld.history, r.version ≠ 5 := by decide
  have sixth : ∀ r ∈ grownWorld.history, r.version ≠ 6 := by decide
  obtain ⟨⟨_, threads⟩, compacting, rfl, second, third⟩ := reached_compacting
  have restoring := (compacting.accept 3 third restoreRequest through).build built packsAll_both rfl
  have restored := restoring.commit (fun _ => none) 5 .applied
    (show _ = Except.ok grownPlan.body from rfl) rfl fifth
  have waits := restored.resume (t := 2)
    (show _ = Phase.ready (.compact filledBody compactInput) by rw [← second]; rfl)
  have compacted := Reached.commit waits (fun _ => none) 6 .applied merged rfl sixth
  exact ⟨_, compacted, rfl⟩

/-- The commit graph of one pack is committed over a root that lists another one. -/
theorem compact_only_misses_push :
    runPipeline compactOptions sampleProbe trimmedPlan.body = .ok (.compactOnly (runStart filledBody)) ∧
      ∃ events s, Run (Step spelledHashing) (start mainRef 1 : System sampleGit) events s ∧
        ∃ link ∈ s.shared.links, link.job = .compact filledBody compactInput ∧
          ¬ SamePacks link.prev.body filledBody := by
  obtain ⟨s, ⟨events, run, -⟩, shared⟩ := reached_compacted
  refine ⟨chooses_compactOnly, events, s, run, ?_⟩
  rw [shared]
  refine ⟨_, mem_cons_self, rfl, ?_⟩
  intro same
  have gone : canonicalPackKey packBoth ∉ packKeys filledBody := by decide
  have there : canonicalPackKey packBoth ∈ packKeys grownWorld.root.body := by decide
  exact gone ((same _).mp there)

theorem countsApart_work (s s' : System git) (t : ThreadId) : CountsApart ⟨s, (t, .work), s'⟩ := by
  intro job prev body reply standing label
  cases label

theorem countsApart_alone (alone : ∀ t, (s.threads t).snapshotBody = none) (l : ThreadId × Label)
    (s' : System git) : CountsApart ⟨s, l, s'⟩ := by
  intro job prev body reply standing label own t m0 held
  rw [alone t] at held
  cases held

theorem countsApart_kept {t : ThreadId} (standing : s.threads t = .publishing job prev body [])
    (kept : job.ownPacks = false) (l : Label) (s' : System git) : CountsApart ⟨s, (t, l), s'⟩ := by
  intro other prev' body' reply standing' label own
  rw [standing] at standing'
  cases standing'
  rw [kept] at own
  cases own

def importCompact : CompactInput := ⟨⟨commitGraphKey "g0", "g0", 0⟩, [], "v00000002"⟩

theorem compact_only_packs_sample :
    ∃ events s, Run (Step spelledHashing) (start mainRef 1 : System sampleGit) events s ∧
      (∀ e ∈ events, CountsApart e) ∧
      ∃ link ∈ s.shared.links, link.job = .compact importedBody importCompact ∧
        SamePacks link.prev.body importedBody := by
  have built : importBody sampleSource mainRef (sampleRepack packBoth) = .ok importedBody := rfl
  have begun : Interleave.Reached (Move spelledHashing) CountsApart (start mainRef 1 : System sampleGit)
      (Interleave.advance (start mainRef 1) 0 (created mainRef 1)
        (.importing (some (packEntry (sampleRepack packBoth))) importedBody)) :=
    (Interleave.reached_start _).take 0 rfl (.importSource built fun _ => packsAll_both)
      (countsApart_work _ _ _)
  have uploaded := begun.again .importUpload (countsApart_work _ _ _)
  have ready := uploaded.again .importReady (countsApart_work _ _ _)
  have accepts : (Job.importRefs importedBody : Job sampleGit).callback spelledHashing (fun _ => none)
      ((created mainRef 1 : World sampleGit).putPack (packEntry (sampleRepack packBoth))).root =
      .ok importedBody := rfl
  have called := ready.again (.call accepts) (countsApart_work _ _ _)
  have second : ∀ r ∈ ((created mainRef 1 : World sampleGit).putPack
      (packEntry (sampleRepack packBoth))).history, r.version ≠ 2 := by decide
  have imported := called.again (.casTaken .applied rfl second) (countsApart_alone (by
    intro t
    by_cases importer : t = 0
    · rw [importer, Interleave.advance_self]
      rfl
    · rw [Interleave.advance_of_ne _ importer]
      rfl) _ _)
  have read : unmarshalBody importedWorld.root.body = .ok importedBody := rfl
  have snapshot := imported.take 1 rfl (.snapshot read) (countsApart_work _ _ _)
  have compacting := snapshot.again (.compact (by decide) (by decide)
    (show importCompact.consumedHashes = snapshotDeltas importedBody from rfl))
    (countsApart_work _ _ _)
  have merges : (Job.compact importedBody importCompact : Job sampleGit).callback spelledHashing
      (fun _ => none) importedWorld.root =
      .ok (buildCompactOnlyBody importedBody importCompact) := by decide
  have publishing := compacting.again (.call merges) (countsApart_work _ _ _)
  have third : ∀ r ∈ importedWorld.history, r.version ≠ 3 := by decide
  obtain ⟨events, run, apart⟩ := publishing.again (.casTaken .applied rfl third)
    (countsApart_kept (Interleave.advance_self ..) rfl _ _)
  refine ⟨events, _, run, apart, _, mem_cons_self, rfl, ?_⟩
  exact compact_only_packs mainRef 1 (by decide) events _ run apart _ mem_cons_self _ _ rfl

end BucketVcs.Writers
