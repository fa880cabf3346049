import BucketVcs.Reachability
import BucketVcs.Writers.Progress

/-! `runPipeline` up to its choice between doing nothing, compacting and repacking, with the
triggers it asks. -/

namespace BucketVcs.Maintenance

open Manifest Reachability

/-- A threshold of zero or less is switched off. Times are in nanoseconds. -/
structure Thresholds where
  recentPackCount : Int
  totalPackCount : Int
  manifestPackBytes : Int
  reachabilityDeltaCommits : Int
  reachabilityDeltaPushes : Int
  reachabilityDeltaBytes : Int
  bundleCommits : Int
  bundleAge : Int
  bitmapCoveragePct : Int
  deriving DecidableEq, Repr

structure TriggerReport where
  triggered : Bool
  reason : String
  recentPackCount : Nat
  totalPackCount : Nat
  manifestPackBytes : Nat
  bitmapCoveragePct : Nat
  thresholds : Thresholds
  compactReachability : Bool
  compactReachabilityReason : String
  deriving DecidableEq, Repr

/-- What a run asks of the store and the clock. `none` is a read that fails. -/
structure Probe where
  packBytes : List PackEntry → Nat
  modifiedAt : Key → Option Int
  deltaCommits : Key → Option UInt32
  trailer : Key → Option String
  backfillLands : Bool
  recentWindow : Int
  now : Int

inductive EvalError where
  | head (key : Key)
  deriving DecidableEq, Repr

def compared (name : String) (left : String) (order : String) (right : String) : String :=
  name ++ "(" ++ left ++ order ++ right ++ ")"

def bitmapCoverage (packs : List PackEntry) : Nat :=
  (packs.filter fun pack => pack.bitmapKey ≠ "").length * 100 / packs.length

def maybeFireBitmapCoverage (thresh : Thresholds) (report : TriggerReport) : TriggerReport :=
  if thresh.bitmapCoveragePct ≤ 0 ∨ report.totalPackCount = 0 then report
  else if report.bitmapCoveragePct < thresh.bitmapCoveragePct ∧ report.triggered = false then
    { report with
      triggered := true
      reason := compared "bitmap_coverage" (toString report.bitmapCoveragePct ++ "%") "<"
        (toString thresh.bitmapCoveragePct ++ "%") }
  else report

def deltaBytes (deltas : List IndexRef) : Int :=
  deltas.foldl (fun total ref => (total + ref.sizeBytes).bmod 18446744073709551616) 0

def evaluateReachabilityPure (body : Body) (thresh : Thresholds) (report : TriggerReport) :
    TriggerReport :=
  match body.indexes.reachability with
  | none => report
  | some chain =>
    if 0 < thresh.reachabilityDeltaBytes ∧ thresh.reachabilityDeltaBytes < deltaBytes chain.deltas then
      { report with compactReachability := true, compactReachabilityReason := "delta-bytes" }
    else if 0 < thresh.reachabilityDeltaPushes ∧
        thresh.reachabilityDeltaPushes < chain.deltas.length then
      { report with compactReachability := true, compactReachabilityReason := "delta-pushes" }
    else report

def countRecent (probe : Probe) (thresh : Int) :
    Nat → List PackEntry → Except EvalError (Nat × Bool)
  | recent, [] => .ok (recent, false)
  | recent, pack :: rest =>
    match probe.modifiedAt pack.packKey with
    | none => .error (.head pack.packKey)
    | some modified =>
      if probe.now - probe.recentWindow < modified then
        if thresh < recent + 1 then .ok (recent + 1, true)
        else countRecent probe thresh (recent + 1) rest
      else countRecent probe thresh recent rest

def evaluate (thresh : Thresholds) (probe : Probe) (body : Body) : Except EvalError TriggerReport :=
  let report : TriggerReport :=
    { triggered := false
      reason := ""
      recentPackCount := 0
      totalPackCount := body.packs.length
      manifestPackBytes := probe.packBytes body.packs
      bitmapCoveragePct := bitmapCoverage body.packs
      thresholds := thresh
      compactReachability := false
      compactReachabilityReason := "" }
  if 0 < thresh.totalPackCount ∧ thresh.totalPackCount < report.totalPackCount then
    .ok { report with
      triggered := true
      reason := compared "total_pack_count" (toString report.totalPackCount) ">"
        (toString thresh.totalPackCount) }
  else if 0 < thresh.manifestPackBytes ∧ thresh.manifestPackBytes < report.manifestPackBytes then
    .ok { report with
      triggered := true
      reason := compared "manifest_pack_bytes" (toString report.manifestPackBytes) ">"
        (toString thresh.manifestPackBytes) }
  else
    let report := evaluateReachabilityPure body thresh report
    if thresh.recentPackCount ≤ 0 then .ok (maybeFireBitmapCoverage thresh report)
    else do
      let (recent, passed) ← countRecent probe thresh.recentPackCount 0 body.packs
      let report := { report with recentPackCount := recent }
      if passed then
        .ok { report with
          triggered := true
          reason := compared "recent_pack_count" (toString recent) ">"
            (toString thresh.recentPackCount) }
      else .ok (maybeFireBitmapCoverage thresh report)

/-- The loop of `EvaluateReachabilityCommits`; a header that cannot be read ends it. -/
def countDeltaCommits (probe : Probe) (thresh : Int) : Int → List IndexRef → Bool
  | _, [] => false
  | total, ref :: rest =>
    match probe.deltaCommits ref.key with
    | none => false
    | some commits =>
      let total := (total + commits.toNat).bmod 18446744073709551616
      if thresh < total then true else countDeltaCommits probe thresh total rest

def evaluateReachabilityCommits (probe : Probe) (body : Body) (thresh : Thresholds) :
    Bool × String :=
  match body.indexes.reachability with
  | none => (false, "")
  | some chain =>
    if thresh.reachabilityDeltaCommits ≤ 0 then (false, "")
    else if countDeltaCommits probe thresh.reachabilityDeltaCommits 0 chain.deltas then
      (true, "delta-commits")
    else (false, "")

structure RunOptions where
  thresholds : Thresholds
  force : Bool
  dryRun : Bool
  bundleOnly : Bool
  deriving DecidableEq, Repr

structure RunStart where
  t0 : RefMap
  d0 : RefName
  p0 : List PackEntry
  consumedHashes : List String
  deriving DecidableEq

def runStart (m0 : Body) : RunStart := ⟨m0.refs, m0.defaultBranch, m0.packs, snapshotDeltas m0⟩

inductive Work where
  | noop (outcome : String)
  | rehearse (start : RunStart)
  | bundleOnly (start : RunStart)
  | compactOnly (start : RunStart)
  | repack (start : RunStart)
  deriving DecidableEq

def triggers (opts : RunOptions) (probe : Probe) (m0 : Body) : Except EvalError TriggerReport := do
  let report ← evaluate opts.thresholds probe m0
  if !opts.force && !report.triggered && !report.compactReachability && !opts.bundleOnly then
    let (hit, reason) := evaluateReachabilityCommits probe m0 opts.thresholds
    if hit then
      .ok { report with compactReachability := true, compactReachabilityReason := reason }
    else .ok report
  else .ok report

def afterBackfill (opts : RunOptions) (probe : Probe) (m0 : Body) : Body :=
  if opts.dryRun || !probe.backfillLands then m0
  else match backfillBody probe.trailer m0 with
    | .ok filled => filled
    | .error _ => m0

def needsPhase1 (opts : RunOptions) (report : TriggerReport) : Bool :=
  opts.force || report.triggered || report.compactReachability || opts.bundleOnly

def gate (opts : RunOptions) (report : TriggerReport) (m0 : Body) : Work :=
  if m0.refs = ∅ ∨ m0.packs = [] then .noop (if opts.bundleOnly then "noop_bundle_only" else "noop")
  else if needsPhase1 opts report = false then .noop "noop"
  else if opts.dryRun && !opts.bundleOnly then .rehearse (runStart m0)
  else if opts.bundleOnly then .bundleOnly (runStart m0)
  else if report.triggered || opts.force then .repack (runStart m0)
  else .compactOnly (runStart m0)

/-- The triggers are asked of the body as it was read, the gate of the backfilled one. -/
def runPipeline (opts : RunOptions) (probe : Probe) (m0 : Body) : Except EvalError Work := do
  let report ← triggers opts probe m0
  .ok (gate opts report (afterBackfill opts probe m0))

/-! The bundle refresh. -/

structure BundleTriggerResult where
  triggered : Bool
  reason : String
  commitsBehind : Int
  deriving DecidableEq, Repr

inductive BundleTriggerError where
  | refNotInManifest (ref : RefName)
  | walk (cause : WalkError)
  deriving DecidableEq, Repr

def existingBundle (m : Body) (ref : RefName) : Option BundleEntry :=
  m.bundles.find? fun entry => entry.kind = fullDefault && entry.ref = ref

/-- A timestamp that does not parse counts as old. -/
def bundleAged (parseTime : String → Option Int) (th : Thresholds) (now : Int)
    (existing : BundleEntry) : Bool :=
  0 < th.bundleAge && match parseTime existing.generatedAt with
    | none => true
    | some generated => th.bundleAge ≤ now - generated

def commitDistance (th : Thresholds) (rset : Option IndexSet) (tip : OID) (existing : BundleEntry) :
    Except BundleTriggerError BundleTriggerResult :=
  match rset with
  | none => .ok ⟨false, "no_trigger", -1⟩
  | some set =>
    if th.bundleCommits ≤ 0 then .ok ⟨false, "no_trigger", -1⟩
    else do
      let n ← (set.walkBackOID tip existing.tipOID th.bundleCommits).mapError .walk
      if n < 0 then .ok ⟨true, "commits", -1⟩
      else if th.bundleCommits ≤ n then .ok ⟨true, "commits", n⟩
      else .ok ⟨false, "no_trigger", n⟩

def evaluateBundleTriggers (parseTime : String → Option Int) (m : Body) (th : Thresholds)
    (ref : RefName) (now : Int) (rset : Option IndexSet) :
    Except BundleTriggerError BundleTriggerResult :=
  match existingBundle m ref with
  | none => .ok ⟨true, "missing", -1⟩
  | some existing =>
    if bundleAged parseTime th now existing then .ok ⟨true, "age", -1⟩
    else
      let currentTip := (m.refs.lookup ref).getD ""
      if currentTip = "" then .error (.refNotInManifest ref)
      else if currentTip = existing.tipOID then .ok ⟨false, "no_trigger", 0⟩
      else commitDistance th rset currentTip existing

/-! Whether maintenance decides alike for the two layouts of one ref map. -/

open RefStore

/-- An inline and a sharded body of one repository, the refs being all they differ in. -/
structure TwoLayouts (h : Hashing) (objects : Objects) (refs : RefMap) (inline sharded : Body) :
    Prop where
  inlineValid : validateBody inline = .ok ()
  shardedValid : validateBody sharded = .ok ()
  noShards : inline.refShards = []
  shards : sharded.refShards ≠ []
  inlineRefs : RefStore.list h objects inline = .ok refs
  shardedRefs : RefStore.list h objects sharded = .ok refs
  branch : sharded.defaultBranch = inline.defaultBranch
  packs : sharded.packs = inline.packs
  indexes : sharded.indexes = inline.indexes
  bundles : sharded.bundles = inline.bundles

variable {h : Hashing} {objects : Objects} {refs : RefMap} {inline sharded : Body}

theorem TwoLayouts.held (same : TwoLayouts h objects refs inline sharded) : inline.refs = refs := by
  have listed := same.inlineRefs
  rw [RefStore.list, if_pos same.noShards] at listed
  exact Except.ok.inj listed

theorem TwoLayouts.empty (same : TwoLayouts h objects refs inline sharded) : sharded.refs = ∅ := by
  rcases validateBody_ok same.shardedValid with ⟨none, -⟩ | ⟨-, empty, -⟩
  · exact absurd none same.shards
  · exact empty

/-! What the triggers read is not in the refs. -/

variable {a b : Body} {opts : RunOptions} {report : TriggerReport} {m0 : Body}

theorem evaluate_congr (packs : a.packs = b.packs) (indexes : a.indexes = b.indexes)
    (thresh : Thresholds) (probe : Probe) : evaluate thresh probe a = evaluate thresh probe b := by
  simp only [evaluate, evaluateReachabilityPure, packs, indexes]

theorem triggers_congr (packs : a.packs = b.packs) (indexes : a.indexes = b.indexes)
    (opts : RunOptions) (probe : Probe) : triggers opts probe a = triggers opts probe b := by
  have commits : evaluateReachabilityCommits probe a opts.thresholds =
      evaluateReachabilityCommits probe b opts.thresholds := by
    rw [evaluateReachabilityCommits, evaluateReachabilityCommits, indexes]
  rw [triggers, triggers, evaluate_congr packs indexes, commits]

theorem afterBackfill_packs (opts : RunOptions) (probe : Probe) (m0 : Body) :
    ∃ packs, afterBackfill opts probe m0 = { m0 with packs := packs } ∧
      (packs = [] ↔ m0.packs = []) := by
  unfold afterBackfill backfillBody
  split
  · exact ⟨m0.packs, rfl, .rfl⟩
  · split
    · next filled =>
        split at filled
        · cases filled
          exact ⟨_, rfl, List.map_eq_nil_iff⟩
        · cases filled
    · exact ⟨m0.packs, rfl, .rfl⟩

def noopOutcome (opts : RunOptions) : String := if opts.bundleOnly then "noop_bundle_only" else "noop"

theorem gate_bare (bare : m0.refs = ∅ ∨ m0.packs = []) :
    gate opts report m0 = .noop (noopOutcome opts) := by
  rw [gate, if_pos bare]
  rfl

theorem gate_noop_iff :
    gate opts report m0 = .noop (noopOutcome opts) ↔
      m0.refs = ∅ ∨ m0.packs = [] ∨ needsPhase1 opts report = false := by
  by_cases bare : m0.refs = ∅ ∨ m0.packs = []
  · rw [gate_bare bare, ← or_assoc]
    exact ⟨fun _ => .inl bare, fun _ => rfl⟩
  · rw [gate, if_neg bare, ← or_assoc]
    by_cases idle : needsPhase1 opts report = false
    · have plain : opts.bundleOnly = false := by
        simp only [needsPhase1, Bool.or_eq_false_iff] at idle
        exact idle.2
      rw [if_pos idle, noopOutcome, plain]
      exact ⟨fun _ => .inr idle, fun _ => rfl⟩
    · rw [if_neg idle]
      constructor
      · intro closed
        split at closed
        · cases closed
        · split at closed
          · cases closed
          · split at closed <;> cases closed
      · rintro (empty | never)
        · exact absurd empty bare
        · exact absurd never idle

/-- Nothing asks for work: the triggers cannot be read, or none fires and none is forced. -/
def Idle (opts : RunOptions) (probe : Probe) (m0 : Body) : Prop :=
  ∀ report, triggers opts probe m0 = .ok report → needsPhase1 opts report = false

theorem runPipeline_ok {probe : Probe} (asked : triggers opts probe m0 = .ok report) :
    runPipeline opts probe m0 = .ok (gate opts report (afterBackfill opts probe m0)) := by
  rw [runPipeline, asked]
  rfl

/-- A sharded repository is never maintained; its inline twin is unless it is idle. -/
theorem TwoLayouts.work_iff (same : TwoLayouts h objects refs inline sharded) (opts : RunOptions)
    (probe : Probe) :
    runPipeline opts probe sharded = runPipeline opts probe inline ↔
      refs = ∅ ∨ inline.packs = [] ∨ Idle opts probe inline := by
  have asks := triggers_congr same.packs same.indexes opts probe
  cases asked : triggers opts probe inline with
  | error cause =>
    have idle : Idle opts probe inline := by
      intro report found
      rw [asked] at found
      cases found
    rw [runPipeline, runPipeline, asks, asked]
    exact ⟨fun _ => .inr (.inr idle), fun _ => rfl⟩
  | ok report =>
    rw [asked] at asks
    obtain ⟨shardedPacks, shardedFilled, -⟩ := afterBackfill_packs opts probe sharded
    obtain ⟨packs, filled, emptied⟩ := afterBackfill_packs opts probe inline
    have closed : gate opts report (afterBackfill opts probe sharded) = .noop (noopOutcome opts) := by
      apply gate_bare
      rw [shardedFilled]
      exact .inl same.empty
    have idle : Idle opts probe inline ↔ needsPhase1 opts report = false := by
      unfold Idle
      rw [asked]
      constructor
      · intro never
        exact never report rfl
      · intro never other found
        rw [← Except.ok.inj found]
        exact never
    rw [runPipeline_ok asks, runPipeline_ok asked, closed, idle, ← same.held, ← emptied,
      Except.ok.injEq, eq_comm, gate_noop_iff, filled]

/-- The bundle that a refresh compares with is missing or old, or the ref has no tip. -/
def Untipped (parseTime : String → Option Int) (th : Thresholds) (now : Int) (ref : RefName)
    (refs : RefMap) (m : Body) : Prop :=
  ∀ existing, existingBundle m ref = some existing →
    bundleAged parseTime th now existing = true ∨ (refs.lookup ref).getD "" = ""

theorem commitDistance_ne {th : Thresholds} {rset : Option IndexSet} {tip : OID}
    {existing : BundleEntry} {ref : RefName} :
    commitDistance th rset tip existing ≠ .error (.refNotInManifest ref) := by
  intro failed
  unfold commitDistance at failed
  split at failed
  · cases failed
  · next set =>
      split at failed
      · cases failed
      · cases walked : set.walkBackOID tip existing.tipOID th.bundleCommits with
        | error cause =>
          rw [walked] at failed
          cases failed
        | ok n =>
          rw [walked] at failed
          simp only [Except.mapError, bind, Except.bind] at failed
          split at failed
          · cases failed
          · split at failed <;> cases failed

/-- The refresh reads the tip from the body, where a sharded one has none. -/
theorem TwoLayouts.bundle_iff (same : TwoLayouts h objects refs inline sharded)
    (parseTime : String → Option Int) (th : Thresholds) (ref : RefName) (now : Int)
    (rset : Option IndexSet) :
    evaluateBundleTriggers parseTime sharded th ref now rset =
        evaluateBundleTriggers parseTime inline th ref now rset ↔
      Untipped parseTime th now ref refs inline := by
  have bundle : existingBundle sharded ref = existingBundle inline ref := by
    rw [existingBundle, existingBundle, same.bundles]
  have noTip : (sharded.refs.lookup ref).getD "" = "" := by
    rw [same.empty]
    rfl
  unfold Untipped evaluateBundleTriggers
  rw [bundle]
  cases found : existingBundle inline ref with
  | none => simp
  | some existing =>
    simp only [Option.some.injEq, forall_eq']
    by_cases aged : bundleAged parseTime th now existing = true
    · simp [aged]
    · simp only [aged, Bool.false_eq_true, false_or, noTip, if_true, same.held]
      by_cases tipless : (refs.lookup ref).getD "" = ""
      · simp [tipless]
      · simp only [tipless, if_false, iff_false]
        split
        · intro equal
          cases equal
        · intro equal
          exact commitDistance_ne equal.symm

/-- Maintenance decides alike for both layouts exactly when an inline repository would be
left alone and its bundle refresh would not look at the tip. -/
theorem pipeline_layouts_agree_iff (same : TwoLayouts h objects refs inline sharded) (opts : RunOptions)
    (probe : Probe) (parseTime : String → Option Int) (ref : RefName) (now : Int)
    (rset : Option IndexSet) :
    (runPipeline opts probe sharded = runPipeline opts probe inline ∧
      evaluateBundleTriggers parseTime sharded opts.thresholds ref now rset =
        evaluateBundleTriggers parseTime inline opts.thresholds ref now rset) ↔
      (refs = ∅ ∨ inline.packs = [] ∨ Idle opts probe inline) ∧
        Untipped parseTime opts.thresholds now ref refs inline := by
  rw [same.work_iff, same.bundle_iff]

/-! A repository with two branches and a bundle of the tip of one of them, before and after
it is resharded. -/

def noThresholds : Thresholds := ⟨0, 0, 0, 0, 0, 0, 0, 0, 0⟩

def quietProbe : Probe := ⟨fun _ => 0, fun _ => none, fun _ => none, fun _ => none, false, 0, 0⟩

def mainBundle : BundleEntry :=
  ⟨"bundle_1", fullDefault, "bundles/1.bundle", "bundles/1.json", "1", Writers.mainRef,
    objectOne, 2, 100, "2026-01-01T00:00:00Z"⟩

def bundledBody : Body := { Writers.importedBody with bundles := [mainBundle] }

def reshardedBody : Body := reshardBody spelledHashing bundledBody

def reshardedObjects : Objects :=
  putShards (reshard spelledHashing bundledBody.refs).1 fun _ => none

theorem twoLayouts_resharded : TwoLayouts spelledHashing reshardedObjects Writers.bothRefs
    bundledBody reshardedBody where
  inlineValid := rfl
  shardedValid := by decide
  noShards := rfl
  shards := by decide
  inlineRefs := by decide
  shardedRefs := by decide
  branch := rfl
  packs := rfl
  indexes := rfl
  bundles := rfl

/-- For the ref that is not bundled, and without a trigger, both layouts are left alone. -/
theorem pipeline_layouts_agree_sample :
    runPipeline ⟨noThresholds, false, false, false⟩ quietProbe reshardedBody =
        runPipeline ⟨noThresholds, false, false, false⟩ quietProbe bundledBody ∧
      evaluateBundleTriggers (fun _ => none) reshardedBody noThresholds Writers.otherRef 0 none =
        evaluateBundleTriggers (fun _ => none) bundledBody noThresholds Writers.otherRef 0 none := by
  refine (pipeline_layouts_agree_iff twoLayouts_resharded ⟨noThresholds, false, false, false⟩ quietProbe
    (fun _ => none) Writers.otherRef 0 none).mpr ⟨.inr (.inr ?_), ?_⟩
  · intro report asked
    have quiet : triggers ⟨noThresholds, false, false, false⟩ quietProbe bundledBody =
      .ok ⟨false, "", 0, 1, 0, 0, noThresholds, false, ""⟩ := by decide
    rw [quiet] at asked
    cases asked
    rfl
  · intro existing found
    have none : existingBundle bundledBody Writers.otherRef = none := by decide
    rw [none] at found
    cases found

/-- A forced run repacks the inline repository and skips the sharded one, whose bundle
refresh would fail on a ref that is there. -/
theorem sharded_repository_skipped :
    TwoLayouts spelledHashing reshardedObjects Writers.bothRefs bundledBody reshardedBody ∧
      runPipeline ⟨noThresholds, true, false, false⟩ quietProbe bundledBody =
        .ok (.repack (runStart bundledBody)) ∧
      runPipeline ⟨noThresholds, true, false, false⟩ quietProbe reshardedBody = .ok (.noop "noop") ∧
      evaluateBundleTriggers (fun _ => none) bundledBody noThresholds Writers.mainRef 0 none =
        .ok ⟨false, "no_trigger", 0⟩ ∧
      evaluateBundleTriggers (fun _ => none) reshardedBody noThresholds Writers.mainRef 0 none =
        .error (.refNotInManifest Writers.mainRef) :=
  ⟨twoLayouts_resharded, by decide, by decide, by decide, by decide⟩

end BucketVcs.Maintenance
