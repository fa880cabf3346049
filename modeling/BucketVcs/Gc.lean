import BucketVcs.Reachability

/-! The collector of one repository: `RunMark` lists what the current root does not
reference, `RunSweep` deletes what has been listed for long enough. -/

namespace BucketVcs.Gc

open Manifest List Results AList

abbrev MarkID := String

/-- Nanoseconds since the epoch, in UTC. -/
abbrev Instant := Nat

/-- A root as `ReadRoot` returns it. -/
structure View extends Importer.Root where
  latestTx : TxID
  deriving DecidableEq

/-! Keys, below the key root of the repository. -/

def rootManifestKey : Key := "manifest/root.json"

def txRecordKey (tx : TxID) : Key := "tx/" ++ tx ++ ".json"

def markerOf (record : Key) : Key := record ++ ".commit"

def commitMarkerKey (tx : TxID) : Key := markerOf (txRecordKey tx)

def under (area : String) (key : Key) : Bool := area.toList.isPrefixOf key.toList

def endsWith (key : List Char) (ending : String) : Bool := ending.toList.isSuffixOf key

def trimSuffix (key : Key) (ending : String) : Key :=
  if endsWith key.toList ending then
    String.ofList (key.toList.take (key.toList.length - ending.toList.length))
  else key

/-- The prefixes `RunMark` lists, in the order it lists them. -/
inductive Area where
  | canonicalPacks
  | objectMap
  | commitGraph
  | reachability
  | reachabilityDelta
  | tx
  | bundles
  deriving DecidableEq, Repr

def Area.path : Area → String
  | .canonicalPacks => "packs/canonical/"
  | .objectMap => "indexes/object-map/"
  | .commitGraph => "indexes/commit-graph/"
  | .reachability => "indexes/reachability/"
  | .reachabilityDelta => "indexes/reachability-delta/"
  | .tx => "tx/"
  | .bundles => "bundles/"

def areas : List Area :=
  [.canonicalPacks, .objectMap, .commitGraph, .reachability, .reachabilityDelta, .tx, .bundles]

/-! The live set. -/

def bodyKeys (body : Body) : List Key :=
  (body.packs.flatMap (fun pack => [pack.packKey, pack.idxKey, pack.bitmapKey]) ++
    body.indexes.objectMap.toList.map IndexRef.key ++
    body.indexes.commitGraph.toList.map IndexRef.key ++
    body.indexes.reachability.toList.flatMap (fun chain => chain.deltas.map IndexRef.key) ++
    body.bundles.flatMap (fun bundle => [bundle.bundleKey, bundle.sidecarKey]) ++
    body.refShards.map RefShard.key).filter fun key => key != ""

def txKeys (tx : TxID) : List Key :=
  if tx = "" then [] else [txRecordKey tx, commitMarkerKey tx]

def liveKeys (view : View) (body : Body) : List Key :=
  rootManifestKey :: (txKeys view.latestTx ++ bodyKeys body)

inductive Error where
  | body (cause : BodyError)
  | unreadableMark (id : MarkID)
  deriving DecidableEq, Repr

def buildLiveSet (view : View) : Except Error (List Key) := do
  let body ← (unmarshalBody view.body).mapError .body
  .ok (liveKeys view body)

/-! Mark records. -/

structure Candidate where
  key : Key
  firstSeenUnreachableAt : Instant
  deriving DecidableEq, Repr

structure PackCandidate extends Candidate where
  lastSeenReachableAt : Option Instant
  markManifestVersion : Nat
  deriving DecidableEq, Repr

structure Candidates where
  txRecords : List Candidate
  canonicalPacks : List PackCandidate
  indexes : List Candidate
  bundles : List Candidate
  orphanMarkers : List Candidate
  deriving DecidableEq, Repr

structure MarkRecord where
  markID : MarkID
  previousMarkID : MarkID
  startedAt : Instant
  completedAt : Instant
  currentManifestVersion : Nat
  currentManifestObjectVersion : Nat
  retentionSeconds : Int
  txOrphanSweepArmed : Bool
  candidates : Candidates
  deriving DecidableEq, Repr

/-- Objects by key, with the version of each. -/
abbrev Objects := AList fun _ : Key => Nat

/-- The mark records by id; one that does not parse is `none`. -/
abbrev Marks := AList fun _ : MarkID => Option MarkRecord

/-- The bucket below the key root of one repository. -/
structure Bucket where
  root : View
  objects : Objects
  marks : Marks

/-- `PutIfAbsent` where an existing object is as good as a new one. -/
def putIfAbsent (objects : Objects) (key : Key) (version : Nat) : Objects :=
  if key ∈ objects then objects else objects.insert key version

def listMarks (marks : Marks) : List MarkID :=
  (marks.keys.filter fun id => id != "").insertionSort fun a b => Reachability.oidLe b a

def readLatest (marks : Marks) : Except Error (Option MarkRecord) :=
  match (listMarks marks).head? with
  | none => .ok none
  | some id =>
    match marks.lookup id with
    | none => .ok none
    | some none => .error (.unreadableMark id)
    | some (some mark) => .ok (some mark)

def defaultMarkRecordRetention : Nat := 10

def pruned (marks : Marks) : List MarkID := (listMarks marks).drop defaultMarkRecordRetention

/-! Discovery, on the keys a listing returned. -/

def listExcludingLive (listed : List Key) (area : Area) (live : List Key) : List Key :=
  listed.filter fun key => under area.path key && !live.contains key

def discoverCanonicalPacks (listed live : List Key) : List Key :=
  listExcludingLive listed .canonicalPacks live

def discoverIndexes (listed live : List Key) : List Key :=
  [Area.objectMap, .commitGraph, .reachability, .reachabilityDelta].flatMap fun area =>
    listExcludingLive listed area live

def discoverBundles (listed live : List Key) : List Key :=
  listExcludingLive listed .bundles live

def belowTx (key : Key) : List Char := key.toList.drop Area.tx.path.toList.length

def isMarker (key : Key) : Bool := under Area.tx.path key && endsWith (belowTx key) ".json.commit"

def isRecord (key : Key) : Bool :=
  under Area.tx.path key && !endsWith (belowTx key) ".json.commit" && endsWith (belowTx key) ".json"

/-- What `DiscoverTxRecords` returns: the records without a marker, the markers without a
record, and whether there was any marker. -/
structure TxListing where
  candidates : List Key
  orphanMarkers : List Key
  armed : Bool

def discoverTxRecords (listed live : List Key) : TxListing :=
  let records := listed.filter isRecord
  let markers := listed.filter isMarker
  { candidates := records.filter fun key => !live.contains key && !markers.contains (markerOf key)
    orphanMarkers := markers.filter fun key => !records.contains (trimSuffix key ".commit")
    armed := !markers.isEmpty }

/-! `RunMark`. -/

/-- What one `RunMark` is given: the id it mints, its two readings of the clock and its
retention. -/
structure MarkRun where
  id : MarkID
  startedAt : Instant
  completedAt : Instant
  retentionSeconds : Int
  deriving DecidableEq

def defaultRetentionSeconds : Int := 604800

def normalizeRetention (seconds : Int) : Int :=
  if seconds ≤ 0 then defaultRetentionSeconds else seconds

/-- A key that was a candidate already keeps its old entry, the last of several. -/
def carry {α : Type} (keyOf : α → Key) (old : List α) (fresh : Key → α) (keys : List Key) : List α :=
  keys.map fun key => (old.reverse.find? fun entry => keyOf entry == key).getD (fresh key)

def carryCandidates (old : List Candidate) (now : Instant) (keys : List Key) : List Candidate :=
  carry Candidate.key old (fun key => ⟨key, now⟩) keys

def noCandidates : Candidates := ⟨[], [], [], [], []⟩

def markRecord (run : MarkRun) (view : View) (live : List Key) (prev : Option MarkRecord)
    (listed : List Key) : MarkRecord :=
  let old := (prev.map MarkRecord.candidates).getD noCandidates
  let tx := discoverTxRecords listed live
  { markID := run.id
    previousMarkID := (prev.map MarkRecord.markID).getD ""
    startedAt := run.startedAt
    completedAt := run.completedAt
    currentManifestVersion := view.manifestVersion
    currentManifestObjectVersion := view.version
    retentionSeconds := normalizeRetention run.retentionSeconds
    txOrphanSweepArmed := tx.armed || (prev.map MarkRecord.txOrphanSweepArmed).getD false
    candidates :=
      { txRecords := carryCandidates old.txRecords run.startedAt tx.candidates
        canonicalPacks := carry (fun pack => pack.key) old.canonicalPacks
          (fun key => ⟨⟨key, run.startedAt⟩, prev.map MarkRecord.completedAt, view.manifestVersion⟩)
          (discoverCanonicalPacks listed live)
        indexes := carryCandidates old.indexes run.startedAt (discoverIndexes listed live)
        bundles := carryCandidates old.bundles run.startedAt (discoverBundles listed live)
        orphanMarkers := carryCandidates old.orphanMarkers run.startedAt tx.orphanMarkers } }

def runMark (run : MarkRun) (bucket : Bucket) : Except Error MarkRecord := do
  let live ← buildLiveSet bucket.root
  let prev ← readLatest bucket.marks
  .ok (markRecord run bucket.root live prev bucket.objects.keys)

/-! `RunSweep`. -/

inductive Category where
  | txRecords
  | canonicalPacks
  | indexes
  | reachabilityDeltas
  | bundles
  | orphanMarkers
  deriving DecidableEq, Repr

inductive Decision where
  | delete
  | revived
  | retention
  | disarmed
  deriving DecidableEq, Repr

/-- `time.Time.Sub`: the difference in nanoseconds, saturated to 64 bits. -/
def age (now firstSeen : Instant) : Int :=
  max (-9223372036854775808) (min 9223372036854775807 ((now : Int) - firstSeen))

/-- `time.Duration(RetentionSeconds) * time.Second`, a 64-bit product. -/
def MarkRecord.retention (mark : MarkRecord) : Int :=
  (mark.retentionSeconds * 1000000000).bmod 18446744073709551616

def classify (key : Key) (category : Category) (firstSeen : Instant) (retention : Int)
    (now : Instant) (live : List Key) (armed : Bool) : Decision :=
  if live.contains key then .revived
  else if age now firstSeen < retention then .retention
  else if category = .txRecords && !armed then .disarmed
  else .delete

structure Target where
  candidate : Candidate
  category : Category
  deriving DecidableEq, Repr

def contains (text part : List Char) : Bool := text.tails.any part.isPrefixOf

def indexCategory (key : Key) : Category :=
  if contains ('/' :: key.toList) "/indexes/reachability-delta/".toList then .reachabilityDeltas
  else .indexes

def Candidates.targets (candidates : Candidates) : List Target :=
  candidates.txRecords.map (fun tx => ⟨tx, .txRecords⟩) ++
    candidates.canonicalPacks.map (fun pack => ⟨pack.toCandidate, .canonicalPacks⟩) ++
    candidates.indexes.map (fun index => ⟨index, indexCategory index.key⟩) ++
    candidates.bundles.map (fun bundle => ⟨bundle, .bundles⟩) ++
    candidates.orphanMarkers.map (fun marker => ⟨marker, .orphanMarkers⟩)

def MarkRecord.targets (mark : MarkRecord) : List Target := mark.candidates.targets

inductive Reason where
  | revived
  | retentionNotMet
  | txSweepDisarmed
  | versionMismatch
  | notFound
  deriving DecidableEq, Repr

structure SweepRecord where
  sweepID : String
  markID : MarkID
  startedAt : Instant
  completedAt : Instant
  currentManifestVersion : Nat
  currentManifestObjectVersion : Nat
  deleted : List Target
  skipped : List (Target × Reason)
  deriving DecidableEq, Repr

/-- What one `RunSweep` is given: the id it mints, its two readings of the clock and
whether it only reports. -/
structure SweepRun where
  id : String
  startedAt : Instant
  completedAt : Instant
  dryRun : Bool
  deriving DecidableEq

def deleteIfVersionMatches (objects : Objects) (key : Key) (version : Nat) : Except Reason Objects :=
  match objects.lookup key with
  | none => .error .notFound
  | some current => if current = version then .ok (objects.erase key) else .error .versionMismatch

def decision (mark : MarkRecord) (live : List Key) (now : Instant) (target : Target) : Decision :=
  classify target.candidate.key target.category target.candidate.firstSeenUnreachableAt
    mark.retention now live mark.txOrphanSweepArmed

/-- The loop of `RunSweep`: the objects left so far, with what was deleted and skipped. -/
structure Progress where
  objects : Objects
  deleted : List Target
  skipped : List (Target × Reason)

def Progress.skip (progress : Progress) (target : Target) (reason : Reason) : Progress :=
  { progress with skipped := progress.skipped ++ [(target, reason)] }

def Progress.delete (progress : Progress) (dryRun : Bool) (target : Target) : Progress :=
  if dryRun then { progress with deleted := progress.deleted ++ [target] }
  else
    match progress.objects.lookup target.candidate.key with
    | none => progress.skip target .notFound
    | some version =>
      match deleteIfVersionMatches progress.objects target.candidate.key version with
      | .error reason => progress.skip target reason
      | .ok objects => ⟨objects, progress.deleted ++ [target], progress.skipped⟩

def applyDecision (dryRun : Bool) (progress : Progress) (target : Target) : Decision → Progress
  | .revived => progress.skip target .revived
  | .retention => progress.skip target .retentionNotMet
  | .disarmed => progress.skip target .txSweepDisarmed
  | .delete => progress.delete dryRun target

/-- An orphan marker whose record came back is left alone before it is classified. -/
def recordIsBack (objects : Objects) (target : Target) : Bool :=
  target.category = .orphanMarkers && trimSuffix target.candidate.key ".commit" ∈ objects

def sweepTarget (dryRun : Bool) (mark : MarkRecord) (live : List Key) (now : Instant)
    (progress : Progress) (target : Target) : Progress :=
  if !dryRun && recordIsBack progress.objects target then progress.skip target .revived
  else applyDecision dryRun progress target (decision mark live now target)

def runSweep (run : SweepRun) (mark : MarkRecord) (bucket : Bucket) :
    Except Error (Objects × SweepRecord) := do
  let live ← buildLiveSet bucket.root
  let swept := mark.targets.foldl (sweepTarget run.dryRun mark live run.startedAt)
    ⟨bucket.objects, [], []⟩
  .ok (swept.objects,
    ⟨run.id, mark.markID, run.startedAt, run.completedAt, bucket.root.manifestVersion,
      bucket.root.version, swept.deleted, swept.skipped⟩)

/-! What a mark lists: every object of the areas it looks into that the root does not
reference, and nothing else. -/

variable {area : String} {key : Key} {view : View} {live : List Key} {run : MarkRun}
  {mark : MarkRecord} {listed : List Key} {prev : Option MarkRecord} {body : Body} {tx : TxID}
  {objects : Objects} {other : Key} {version : Nat} {left : Objects} {now : Instant}
  {target : Target}

theorem under_iff : under area key = true ↔ area.toList <+: key.toList := isPrefixOf_iff_prefix

theorem under_apart {other : String} (inside : under area key = true)
    (apart : area.toList.isPrefixOf other.toList = false ∧
      other.toList.isPrefixOf area.toList = false) : under other key = false := by
  rw [Bool.eq_false_iff]
  intro both
  rcases prefix_or_prefix_of_prefix (under_iff.mp inside) (under_iff.mp both) with short | long
  · rw [List.isPrefixOf_iff_prefix.mpr short] at apart
    exact absurd apart.1 (by decide)
  · rw [List.isPrefixOf_iff_prefix.mpr long] at apart
    exact absurd apart.2 (by decide)

theorem under_txRecordKey (tx : TxID) : under Area.tx.path (txRecordKey tx) = true := by
  rw [under_iff]
  simp [txRecordKey, Area.path]

theorem under_markerOf (inside : under area key = true) : under area (markerOf key) = true := by
  rw [under_iff] at inside ⊢
  rw [markerOf, String.toList_append]
  exact inside.trans (prefix_append _ _)

/-! Records and markers below `tx/`. -/

private theorem below_tx {rest : List Char} (shape : key.toList = Area.tx.path.toList ++ rest) :
    belowTx key = rest := by
  rw [belowTx, shape, drop_left]

theorem under_of_isMarker (marker : isMarker key = true) :
    under Area.tx.path key = true := (Bool.and_eq_true_iff.mp marker).1

theorem under_of_isRecord (record : isRecord key = true) : under Area.tx.path key = true :=
  (Bool.and_eq_true_iff.mp (Bool.and_eq_true_iff.mp record).1).1

theorem isMarker_iff : isMarker key = true ↔
    ∃ name, key.toList = Area.tx.path.toList ++ (name ++ ".json.commit".toList) := by
  rw [isMarker, Bool.and_eq_true, under_iff, endsWith, isSuffixOf_iff_suffix]
  constructor
  · rintro ⟨⟨rest, shape⟩, name, ending⟩
    rw [below_tx shape.symm] at ending
    exact ⟨name, by rw [ending, shape]⟩
  · rintro ⟨name, shape⟩
    exact ⟨⟨_, shape.symm⟩, name, (below_tx shape).symm⟩

theorem isRecord_iff : isRecord key = true ↔
    ∃ name, key.toList = Area.tx.path.toList ++ (name ++ ".json".toList) := by
  rw [isRecord, Bool.and_eq_true, Bool.and_eq_true, under_iff, endsWith, endsWith,
    Bool.not_eq_true', Bool.eq_false_iff, ne_eq, isSuffixOf_iff_suffix,
    isSuffixOf_iff_suffix]
  constructor
  · rintro ⟨⟨⟨rest, shape⟩, -⟩, name, ending⟩
    rw [below_tx shape.symm] at ending
    exact ⟨name, by rw [ending, shape]⟩
  · rintro ⟨name, shape⟩
    refine ⟨⟨⟨_, shape.symm⟩, ?_⟩, name, (below_tx shape).symm⟩
    -- the two endings differ in their last letter
    rintro ⟨other, ending⟩
    rw [below_tx shape] at ending
    have last := congrArg getLast? ending
    simp at last

theorem isRecord_txRecordKey (tx : TxID) : isRecord (txRecordKey tx) = true :=
  isRecord_iff.mpr ⟨tx.toList, by simp [txRecordKey, Area.path]⟩

theorem isMarker_markerOf (record : isRecord key = true) : isMarker (markerOf key) = true := by
  obtain ⟨name, shape⟩ := isRecord_iff.mp record
  exact isMarker_iff.mpr ⟨name, by simp [markerOf, shape]⟩

theorem isRecord_markerOf : isRecord (markerOf key) = false := by
  rw [Bool.eq_false_iff, ne_eq, isRecord_iff]
  rintro ⟨name, shape⟩
  rw [markerOf] at shape
  have last := congrArg getLast? shape
  simp at last

theorem trimSuffix_markerOf (key : Key) : trimSuffix (markerOf key) ".commit" = key := by
  have ends : endsWith (markerOf key).toList ".commit" = true := by
    rw [endsWith, isSuffixOf_iff_suffix, markerOf, String.toList_append]
    exact suffix_append _ _
  rw [trimSuffix, if_pos ends, markerOf, String.toList_append, length_append,
    Nat.add_sub_cancel, take_left, String.ofList_toList]

theorem isMarker_trimSuffix (marker : isMarker key = true) :
    isRecord (trimSuffix key ".commit") = true ∧ markerOf (trimSuffix key ".commit") = key := by
  obtain ⟨name, shape⟩ := isMarker_iff.mp marker
  have whole : key =
      markerOf (.ofList (Area.tx.path.toList ++ (name ++ ".json".toList))) := by
    apply String.toList_inj.mp
    rw [shape, markerOf]
    simp
  rw [whole, trimSuffix_markerOf]
  exact ⟨isRecord_iff.mpr ⟨name, String.toList_ofList⟩, rfl⟩

/-! The live set and the previous mark. -/

theorem buildLiveSet_ok :
    buildLiveSet view = .ok live ↔
      validateBody view.body = .ok () ∧ live = liveKeys view view.body := by
  constructor
  · intro built
    obtain ⟨body, read, built⟩ := bind_ok built
    obtain ⟨valid, rfl⟩ := unmarshalBody_ok (mapError_ok read)
    exact ⟨valid, (Except.ok.inj built).symm⟩
  · rintro ⟨valid, rfl⟩
    have read : unmarshalBody view.body = .ok view.body := by
      simp [unmarshalBody, valid]
    rw [buildLiveSet, read]
    rfl

def LatestReadable (marks : Marks) : Prop :=
  ∀ id, (listMarks marks).head? = some id → marks.lookup id ≠ some none

theorem readLatest_ok_iff {marks : Marks} :
    (∃ prev, readLatest marks = .ok prev) ↔ LatestReadable marks := by
  unfold readLatest LatestReadable
  cases (listMarks marks).head? with
  | none => simp
  | some id =>
    cases found : marks.lookup id with
    | none => simp [found]
    | some entry => cases entry <;> simp [found]

theorem runMark_ok {bucket : Bucket} :
    runMark run bucket = .ok mark ↔
      validateBody bucket.root.body = .ok () ∧
        ∃ prev, readLatest bucket.marks = .ok prev ∧
          mark = markRecord run bucket.root (liveKeys bucket.root bucket.root.body) prev
            bucket.objects.keys := by
  constructor
  · intro marked
    obtain ⟨live, built, marked⟩ := bind_ok marked
    obtain ⟨valid, rfl⟩ := buildLiveSet_ok.mp built
    obtain ⟨prev, read, marked⟩ := bind_ok marked
    exact ⟨valid, prev, read, (Except.ok.inj marked).symm⟩
  · rintro ⟨valid, prev, read, rfl⟩
    rw [runMark, buildLiveSet_ok.mpr ⟨valid, rfl⟩, read]
    rfl

/-! The candidates of a mark. -/

theorem mem_listExcludingLive {area : Area} :
    key ∈ listExcludingLive listed area live ↔
      key ∈ listed ∧ under area.path key = true ∧ key ∉ live := by
  simp [listExcludingLive]

theorem mem_discoverIndexes :
    key ∈ discoverIndexes listed live ↔
      ∃ area ∈ [Area.objectMap, .commitGraph, .reachability, .reachabilityDelta],
        key ∈ listed ∧ under area.path key = true ∧ key ∉ live := by
  simp [discoverIndexes, mem_listExcludingLive]

theorem mem_txCandidates :
    key ∈ (discoverTxRecords listed live).candidates ↔
      key ∈ listed ∧ isRecord key = true ∧ key ∉ live ∧ markerOf key ∉ listed := by
  simp only [discoverTxRecords, mem_filter, Bool.and_eq_true, Bool.not_eq_true',
    contains_eq_mem, decide_eq_false_iff_not]
  constructor
  · rintro ⟨⟨inside, record⟩, dead, unmarked⟩
    exact ⟨inside, record, dead, fun marked => unmarked ⟨marked, isMarker_markerOf record⟩⟩
  · rintro ⟨inside, record, dead, unmarked⟩
    exact ⟨⟨inside, record⟩, dead, fun marked => unmarked marked.1⟩

theorem mem_orphanMarkers :
    key ∈ (discoverTxRecords listed live).orphanMarkers ↔
      key ∈ listed ∧ isMarker key = true ∧ trimSuffix key ".commit" ∉ listed := by
  simp only [discoverTxRecords, mem_filter, Bool.not_eq_true', contains_eq_mem,
    decide_eq_false_iff_not]
  constructor
  · rintro ⟨⟨inside, marker⟩, alone⟩
    exact ⟨inside, marker, fun back => alone ⟨back, (isMarker_trimSuffix marker).1⟩⟩
  · rintro ⟨inside, marker, alone⟩
    exact ⟨⟨inside, marker⟩, fun back => alone back.1⟩

theorem map_carry {α : Type} {keyOf : α → Key} {old : List α} {fresh : Key → α}
    (keyed : ∀ key, keyOf (fresh key) = key) (keys : List Key) :
    (carry keyOf old fresh keys).map keyOf = keys := by
  rw [carry, map_map]
  conv_rhs => rw [← map_id keys]
  apply map_congr_left
  intro key _
  change keyOf ((old.reverse.find? fun entry => keyOf entry == key).getD (fresh key)) = key
  cases found : old.reverse.find? fun entry => keyOf entry == key with
  | none => exact keyed key
  | some entry => simpa using List.find?_some found

theorem map_carryCandidates (old : List Candidate) (now : Instant) (keys : List Key) :
    (carryCandidates old now keys).map Candidate.key = keys :=
  map_carry (fun _ => rfl) keys

def MarkRecord.keys (mark : MarkRecord) : List Key :=
  mark.targets.map fun target => target.candidate.key

theorem keys_markRecord (run : MarkRun) (view : View) (live : List Key) (prev : Option MarkRecord)
    (listed : List Key) :
    (markRecord run view live prev listed).keys =
      (discoverTxRecords listed live).candidates ++ discoverCanonicalPacks listed live ++
        discoverIndexes listed live ++ discoverBundles listed live ++
        (discoverTxRecords listed live).orphanMarkers := by
  have packs : (carry (fun pack : PackCandidate => pack.key)
      ((prev.map MarkRecord.candidates).getD noCandidates).canonicalPacks
      (fun key => ⟨⟨key, run.startedAt⟩, prev.map MarkRecord.completedAt, view.manifestVersion⟩)
      (discoverCanonicalPacks listed live)).map (fun pack => pack.key) =
      discoverCanonicalPacks listed live := map_carry (fun _ => rfl) _
  have others := fun old keys => map_carryCandidates old run.startedAt keys
  simp only [MarkRecord.keys, MarkRecord.targets, Candidates.targets, markRecord, map_append, map_map]
  simp only [Function.comp_def] at packs others ⊢
  rw [packs]
  simp only [others]

def contentAreas : List Area :=
  [.canonicalPacks, .objectMap, .commitGraph, .reachability, .reachabilityDelta, .bundles]

def refShardPath : String := "manifest/ref-shards/"

/-- A key of the content the commit paths write once and never change. -/
def Immutable (key : Key) : Prop :=
  (∃ area ∈ contentAreas, under area.path key = true) ∨ under refShardPath key = true

theorem mem_content :
    key ∈ discoverCanonicalPacks listed live ∨ key ∈ discoverIndexes listed live ∨
        key ∈ discoverBundles listed live ↔
      ∃ area ∈ contentAreas, key ∈ listed ∧ under area.path key = true ∧ key ∉ live := by
  simp only [mem_discoverIndexes, discoverCanonicalPacks, discoverBundles, mem_listExcludingLive,
    contentAreas, mem_cons, not_mem_nil, or_false, exists_eq_or_imp, exists_eq_left,
    or_assoc]

theorem mem_keys_markRecord :
    key ∈ (markRecord run view live prev listed).keys ↔
      (∃ area ∈ contentAreas, key ∈ listed ∧ under area.path key = true ∧ key ∉ live) ∨
        (key ∈ listed ∧ isRecord key = true ∧ key ∉ live ∧ markerOf key ∉ listed) ∨
        (key ∈ listed ∧ isMarker key = true ∧ trimSuffix key ".commit" ∉ listed) := by
  rw [← mem_content, ← mem_txCandidates, ← mem_orphanMarkers, keys_markRecord]
  simp only [mem_append]
  constructor
  · rintro ((((tx | pack) | index) | bundle) | marker)
    · exact .inr (.inl tx)
    · exact .inl (.inl pack)
    · exact .inl (.inr (.inl index))
    · exact .inl (.inr (.inr bundle))
    · exact .inr (.inr marker)
  · rintro ((pack | index | bundle) | tx | marker)
    · exact .inl (.inl (.inl (.inr pack)))
    · exact .inl (.inl (.inr index))
    · exact .inl (.inr bundle)
    · exact .inl (.inl (.inl (.inl tx)))
    · exact .inr marker

theorem content_apart {area : Area} (content : area ∈ contentAreas)
    (inside : under area.path key = true) :
    under refShardPath key = false ∧ under Area.tx.path key = false := by
  simp only [contentAreas, mem_cons, not_mem_nil, or_false] at content
  rcases content with rfl | rfl | rfl | rfl | rfl | rfl <;>
    exact ⟨under_apart inside (by decide), under_apart inside (by decide)⟩

theorem not_mem_keys_of_shard (shard : under refShardPath key = true) :
    key ∉ (markRecord run view live prev listed).keys := by
  have outside : under Area.tx.path key = false := under_apart shard (by decide)
  rw [mem_keys_markRecord]
  rintro (⟨area, content, -, inside, -⟩ | ⟨-, record, -⟩ | ⟨-, marker, -⟩)
  · rw [(content_apart content inside).1] at shard
    exact absurd shard (by decide)
  · simp [isRecord, outside] at record
  · simp [isMarker, outside] at marker

theorem mem_bodyKeys_of_live (content : Immutable key) (live : key ∈ liveKeys view body) :
    key ∈ bodyKeys body := by
  have outside : under Area.tx.path key = false := by
    rcases content with ⟨area, listed, inside⟩ | shard
    · exact (content_apart listed inside).2
    · exact under_apart shard (by decide)
  rcases mem_cons.mp live with rfl | live
  · exfalso
    rcases content with ⟨area, listed, inside⟩ | shard
    · simp only [contentAreas, mem_cons, not_mem_nil, or_false] at listed
      rcases listed with rfl | rfl | rfl | rfl | rfl | rfl <;> exact absurd inside (by decide)
    · exact absurd shard (by decide)
  · rcases mem_append.mp live with own | inBody
    · exfalso
      unfold txKeys at own
      split at own
      · cases own
      · rcases mem_pair.mp own with rfl | rfl
        · rw [under_txRecordKey] at outside
          cases outside
        · rw [commitMarkerKey, under_markerOf (under_txRecordKey _)] at outside
          cases outside
    · exact inBody

theorem txRecordKey_injective {other : TxID} (same : txRecordKey tx = txRecordKey other) :
    tx = other := by
  have letters := congrArg String.toList same
  simpa [txRecordKey, String.toList_inj] using letters

theorem txRecordKey_not_mem_txKeys {latest : TxID} (other : tx ≠ latest) :
    txRecordKey tx ∉ txKeys latest := by
  unfold txKeys
  split
  · exact not_mem_nil
  · intro member
    rcases mem_pair.mp member with same | same
    · exact other (txRecordKey_injective same)
    · have record := isRecord_txRecordKey tx
      rw [same, commitMarkerKey, isRecord_markerOf] at record
      cases record

theorem txRecordKey_not_immutable (tx : TxID) : ¬ Immutable (txRecordKey tx) := by
  intro content
  have outside : under Area.tx.path (txRecordKey tx) = false := by
    rcases content with ⟨area, listed, inside⟩ | shard
    · exact (content_apart listed inside).2
    · exact under_apart shard (by decide)
  rw [under_txRecordKey] at outside
  cases outside

theorem txRecordKey_dead (other : tx ≠ view.latestTx)
    (content : ∀ key ∈ bodyKeys body, Immutable key) : txRecordKey tx ∉ liveKeys view body := by
  intro live
  rcases mem_cons.mp live with same | live
  · have inside := under_txRecordKey tx
    rw [same] at inside
    exact absurd inside (by decide)
  · rcases mem_append.mp live with own | inBody
    · exact txRecordKey_not_mem_txKeys other own
    · exact txRecordKey_not_immutable tx (content _ inBody)

/-- What a mark is for: it lists every immutable object the root does not reference, and
no live key. -/
structure Collects (bucket : Bucket) (mark : MarkRecord) : Prop where
  orphans : ∀ key ∈ bucket.objects, Immutable key → key ∉ bodyKeys bucket.root.body →
    key ∈ mark.keys
  spares : ∀ key ∈ liveKeys bucket.root bucket.root.body, key ∉ mark.keys

/-- A mark collects exactly when it gets past the body and the previous mark, no ref shard
is unreferenced and no live marker has lost its record. -/
theorem run_mark_collects_iff (run : MarkRun) (bucket : Bucket) :
    (∃ mark, runMark run bucket = .ok mark ∧ Collects bucket mark) ↔
      validateBody bucket.root.body = .ok () ∧ LatestReadable bucket.marks ∧
        (∀ key ∈ bucket.objects, under refShardPath key = true →
          key ∈ bodyKeys bucket.root.body) ∧
        (∀ key ∈ liveKeys bucket.root bucket.root.body, key ∈ bucket.objects →
          isMarker key = true → trimSuffix key ".commit" ∈ bucket.objects) := by
  constructor
  · rintro ⟨mark, marked, collects⟩
    obtain ⟨valid, prev, read, rfl⟩ := runMark_ok.mp marked
    refine ⟨valid, readLatest_ok_iff.mp ⟨prev, read⟩, ?_, ?_⟩
    · intro key present shard
      by_contra unreferenced
      exact not_mem_keys_of_shard shard (collects.orphans key present (.inr shard) unreferenced)
    · intro key live present marker
      by_contra alone
      apply collects.spares key live
      rw [mem_keys_markRecord]
      exact .inr (.inr ⟨present, marker, alone⟩)
  · rintro ⟨valid, readable, shards, markers⟩
    obtain ⟨prev, read⟩ := readLatest_ok_iff.mpr readable
    refine ⟨_, runMark_ok.mpr ⟨valid, prev, read, rfl⟩, ?_, ?_⟩
    · intro key present content unreferenced
      rw [mem_keys_markRecord]
      rcases content with ⟨area, listed, inside⟩ | shard
      · refine .inl ⟨area, listed, present, inside, ?_⟩
        intro live
        exact unreferenced (mem_bodyKeys_of_live (.inl ⟨area, listed, inside⟩) live)
      · exact absurd (shards key present shard) unreferenced
    · intro key live
      rw [mem_keys_markRecord]
      rintro (⟨area, -, -, -, dead⟩ | ⟨-, -, dead, -⟩ | ⟨present, marker, alone⟩)
      · exact dead live
      · exact dead live
      · exact alone (markers key live present marker)

theorem mem_putIfAbsent :
    key ∈ putIfAbsent objects other version ↔ key = other ∨ key ∈ objects := by
  unfold putIfAbsent
  split
  · next present =>
      constructor
      · exact .inr
      · rintro (rfl | inside)
        · exact present
        · exact inside
  · exact mem_insert objects

theorem lookup_putIfAbsent_new (absent : key ∉ objects) (version : Nat) :
    (putIfAbsent objects key version).lookup key = some version := by
  rw [putIfAbsent, if_neg absent, lookup_insert]

theorem deleteIfVersionMatches_ok (deleted : deleteIfVersionMatches objects key version = .ok left) :
    objects.lookup key = some version ∧ left = objects.erase key := by
  unfold deleteIfVersionMatches at deleted
  split at deleted
  · cases deleted
  · next current found =>
      split at deleted
      · next same =>
          cases deleted
          exact ⟨same ▸ found, rfl⟩
      · cases deleted

theorem mem_deleteIfVersionMatches (deleted : deleteIfVersionMatches objects key version = .ok left) :
    other ∈ left ↔ other ≠ key ∧ other ∈ objects := by
  rw [(deleteIfVersionMatches_ok deleted).2]
  exact mem_erase

theorem decision_of_dead (dead : target.candidate.key ∉ live)
    (old : mark.retention ≤ age now target.candidate.firstSeenUnreachableAt)
    (armed : target.category = .txRecords → mark.txOrphanSweepArmed = true) :
    decision mark live now target = .delete := by
  have unlisted : live.contains target.candidate.key = false := by
    simpa using dead
  have aged : ¬ age now target.candidate.firstSeenUnreachableAt < mark.retention := not_lt.mpr old
  rw [decision, classify, unlisted, if_neg (by decide), if_neg aged, if_neg]
  intro disarmed
  rw [Bool.and_eq_true, decide_eq_true_iff] at disarmed
  rw [armed disarmed.1] at disarmed
  exact absurd disarmed.2 (by decide)

theorem decision_delete (decided : decision mark live now target = .delete) :
    target.candidate.key ∉ live ∧
      mark.retention ≤ age now target.candidate.firstSeenUnreachableAt := by
  unfold decision classify at decided
  split at decided
  · cases decided
  · next dead =>
      split at decided
      · cases decided
      · next old =>
          refine ⟨by simpa using dead, ?_⟩
          omega

def objectsOf (keys : List Key) : Objects := keys.foldr (fun key objects => objects.insert key 1) ∅

theorem mem_objectsOf {keys : List Key} : key ∈ objectsOf keys ↔ key ∈ keys := by
  induction keys with
  | nil => simp [objectsOf]
  | cons first rest ih =>
    change key ∈ (objectsOf rest).insert first 1 ↔ _
    rw [mem_insert, ih, mem_cons]

def branchBody (made : Importer.Repack) : Body :=
  Importer.sourceBody (Finmap.singleton "refs/heads/main".toUTF8.toList
    "1111111111111111111111111111111111111111") "refs/heads/main".toUTF8.toList made

def importedBody : Body :=
  branchBody ⟨"2222222222222222222222222222222222222222", 300, 3, "3333", "4444"⟩

def reshardStopped : Bucket :=
  { root := ⟨⟨2, 2, importedBody⟩, "01B"⟩
    objects := objectsOf (refShardKey "5555" ::
      (bodyKeys importedBody ++ txKeys "01A" ++ txKeys "01B"))
    marks := ∅ }

def firstMark : MarkRun := ⟨"mk_01C", 0, 1, 3600⟩

/-- The shard that was left behind is no candidate. -/
theorem stopped_reshard_leaks :
    (∃ mark, runMark firstMark reshardStopped = .ok mark) ∧
      ∀ mark, runMark firstMark reshardStopped = .ok mark → ¬ Collects reshardStopped mark := by
  have valid : validateBody reshardStopped.root.body = .ok () := rfl
  refine ⟨⟨_, runMark_ok.mpr ⟨valid, none, rfl, rfl⟩⟩, ?_⟩
  intro mark marked collects
  obtain ⟨-, prev, -, rfl⟩ := runMark_ok.mp marked
  have shard : under refShardPath (refShardKey "5555") = true := rfl
  have left : refShardKey "5555" ∈ reshardStopped.objects := mem_objectsOf.mpr mem_cons_self
  have unreferenced : refShardKey "5555" ∉ bodyKeys reshardStopped.root.body := by decide
  exact not_mem_keys_of_shard shard (collects.orphans _ left (.inr shard) unreferenced)

end BucketVcs.Gc
