import BucketVcs.Maintenance
import BucketVcs.ReceivePack

/-! The index objects of a root (`.bvom`, `.bvcg` and the `.bvrd` delta chain), what builds
them, and `reachability.Load`, which reads them back. -/

namespace BucketVcs.Reachability

open Manifest RefStore Importer ReceivePack Results List Option Finmap Dict

structure CommitRecord where
  oid : OID
  generation : UInt32
  parents : List OID
  deriving DecidableEq, Repr

/-- A `.bvcg`: the commits of one pack in the order of their OIDs, and the ref tips. -/
structure CommitGraph where
  commits : List CommitRecord
  tips : List (RefName × OID)
  deriving DecidableEq, Repr

structure MapRecord where
  oid : OID
  pack : Nat
  offset : Nat
  deriving DecidableEq, Repr

/-- A `.bvom`: for each object its pack, by position in the pack table. -/
structure ObjectMap where
  records : List MapRecord
  packTable : List PackID
  deriving DecidableEq, Repr

/-- The zero OID is the null OID: a creation as the old value, a deletion as the new one. -/
structure RefTipDiff where
  refName : RefName
  oldOID : OID
  newOID : OID
  deriving DecidableEq, Repr

/-- A `.bvrd` as it is decoded: its commits in the order of their OIDs. -/
structure Delta where
  commits : List CommitRecord
  refTips : List RefTipDiff
  packs : List PackID
  deriving DecidableEq, Repr

/-- What is assumed of git beyond the links between objects: which objects are commits, their
parents, what an annotated tag leads to, and the `.idx` of a pack. Commit ids are hashes over
the ids of the parents, so following parents ends. -/
structure Commits (git : Git) where
  isCommit : OID → Bool
  parents : OID → List OID
  peel : OID → Option OID
  height : OID → Nat
  listing : PackID → List OID
  offset : PackID → OID → Nat
  linked : ∀ oid, ∀ parent ∈ parents oid, parent ∈ git.links oid
  lower : ∀ oid, ∀ parent ∈ parents oid, height parent < height oid
  mem_listing : ∀ id oid, oid ∈ listing id ↔ oid ∈ git.contents id

/-- Index objects by key. Each is put under the hash of its bytes before the root that names it
is committed, and nothing here deletes them, so a key made from a hash leads to the content. -/
structure Artifacts where
  graphHash : CommitGraph → String
  mapHash : ObjectMap → String
  deltaHash : Delta → String
  deltaSize : Delta → Int
  graphs : Key → Option CommitGraph
  maps : Key → Option ObjectMap
  deltas : Key → Option Delta
  graph_held : ∀ graph, graphs (commitGraphKey (graphHash graph)) = some graph
  map_held : ∀ table, maps (objectMapKey (mapHash table)) = some table
  delta_held : ∀ delta, deltas (reachabilityDeltaKey (deltaHash delta)) = some delta

variable {git : Git}

/-! Building. -/

inductive BuildError where
  | packID (id : PackID)
  | tooManyParents (oid : OID)
  | strayTip (name : RefName) (oid : OID)
  | danglingParent (oid parent : OID)
  deriving DecidableEq, Repr

/-- One more than the highest generation among the parents; an object outside `known` has
generation zero. -/
def generation (commits : Commits git) (known : OID → Option UInt32) (fresh : OID → Bool) :
    Nat → OID → UInt32
  | 0, _ => 0
  | fuel + 1, oid =>
    match known oid with
    | some value => value
    | none =>
      if fresh oid then
        (commits.parents oid).foldl
          (fun top parent => max top (generation commits known fresh fuel parent)) 0 + 1
      else 0

def commitRecord (commits : Commits git) (known : OID → Option UInt32) (fresh : OID → Bool)
    (oid : OID) : CommitRecord :=
  ⟨oid, generation commits known fresh (commits.height oid + 1) oid, commits.parents oid⟩

def maxParents : Nat := 255

def checkParentCount (record : CommitRecord) : Except BuildError Unit :=
  require (record.parents.length ≤ maxParents) (.tooManyParents record.oid)

def buildCommitGraph (commits : Commits git) (id : PackID) (refs : RefMap) :
    Except BuildError CommitGraph := do
  let found := (commits.listing id).filter commits.isCommit
  let records := found.map (commitRecord commits (fun _ => none) (· ∈ found))
  let tips := (Dict.entries refs).filterMap fun entry => (commits.peel entry.2).map (entry.1, ·)
  records.forM checkParentCount
  tips.forM fun tip => require (tip.2 ∈ found) (.strayTip tip.1 tip.2)
  records.forM fun record =>
    record.parents.forM fun parent => require (parent ∈ found) (.danglingParent record.oid parent)
  .ok ⟨records, tips⟩

def buildObjectMap (commits : Commits git) (id : PackID) : Except BuildError ObjectMap := do
  require (RefNames.isHexOID id) (.packID id)
  let objects := commits.listing id
  .ok ⟨objects.map fun oid => ⟨oid, 0, commits.offset id oid⟩, if objects = [] then [] else [id]⟩

def ObjectMap.lookup (table : ObjectMap) (oid : OID) : Option PackID :=
  (table.records.find? fun record => record.oid = oid).bind fun record => table.packTable[record.pack]?

def CommitGraph.record (graph : CommitGraph) (oid : OID) : Option CommitRecord :=
  graph.commits.find? fun record => record.oid = oid

/-! Reading. -/

inductive LoadError where
  | noIndex
  | missing (key : Key)
  | hashMismatch (key : Key)
  | refStore (cause : RefStore.Error)
  | badRef (name : RefName) (hex : OID)
  deriving DecidableEq, Repr

def fetch {α : Type} (held : Key → Option α) (key : Key) : Except LoadError α :=
  match held key with
  | some content => .ok content
  | none => .error (.missing key)

def chainRefs : Option ReachabilityRef → List IndexRef
  | none => []
  | some chain => chain.deltas

def deltaRefs (body : Body) : List IndexRef := chainRefs body.indexes.reachability

def loadDeltas (store : Artifacts) (body : Body) : Except LoadError (List Delta) :=
  (deltaRefs body).mapM fun ref => fetch store.deltas ref.key

/-- The records of a chain by OID: the latest delta wins. -/
def deltaIndex (deltas : List Delta) : Finmap fun _ : OID => CommitRecord :=
  Dict.insertAll (deltas.flatMap fun delta => delta.commits.map fun record => (record.oid, record)) ∅

def hexDigit (c : Char) : Bool :=
  ('0' ≤ c ∧ c ≤ '9') ∨ ('a' ≤ c ∧ c ≤ 'f') ∨ ('A' ≤ c ∧ c ≤ 'F')

def parseOID (hex : String) : Option OID :=
  if hex.toList.length = 40 ∧ hex.toList.all hexDigit then
    some (String.ofList (hex.toList.map Char.toLower))
  else none

def parseRef (entry : RefName × OID) : Except LoadError (RefName × OID) :=
  match parseOID entry.2 with
  | some oid => .ok (entry.1, oid)
  | none => .error (.badRef entry.1 entry.2)

def parseRefs (listed : RefMap) : Except LoadError RefMap := do
  let parsed ← ((Dict.entries listed).filter fun entry => !deletes entry.2).mapM parseRef
  .ok (Dict.insertAll parsed ∅)

def replay (deltas : List Delta) (refs : RefMap) : RefMap :=
  applyUpdates ((deltas.flatMap Delta.refTips).map fun tip => (tip.refName, tip.newOID)) refs

/-- `reachability.Set`. -/
structure IndexSet where
  graph : CommitGraph
  objectMap : ObjectMap
  deltas : List Delta
  refs : RefMap
  index : Finmap fun _ : OID => CommitRecord

def openObjectMap (store : Artifacts) (ref : IndexRef) : Except LoadError ObjectMap := do
  let table ← fetch store.maps ref.key
  require (store.mapHash table = ref.hash) (.hashMismatch ref.key)
  .ok table

def load (h : Hashing) (objects : Objects) (store : Artifacts) (body : Body) :
    Except LoadError IndexSet :=
  match body.indexes.commitGraph, body.indexes.objectMap with
  | some graphRef, some mapRef => do
    let graph ← fetch store.graphs graphRef.key
    let objectMap ← openObjectMap store mapRef
    let deltas ← loadDeltas store body
    let listed ← (RefStore.list h objects body).mapError .refStore
    let refs ← parseRefs listed
    .ok ⟨graph, objectMap, deltas, replay deltas refs, deltaIndex deltas⟩
  | _, _ => .error .noIndex

def IndexSet.has (set : IndexSet) (oid : OID) : Bool :=
  (set.index.lookup oid).isSome || (set.graph.record oid).isSome

def IndexSet.parents (set : IndexSet) (oid : OID) : List OID :=
  match set.index.lookup oid with
  | some record => record.parents
  | none =>
    match set.graph.record oid with
    | some record => record.parents
    | none => []

def IndexSet.refTips (set : IndexSet) : RefMap := set.refs

def IndexSet.objectPack (set : IndexSet) (oid : OID) : Option PackID := set.objectMap.lookup oid

inductive WalkError where
  | parse (oid : OID)
  | notInSet (oid : OID)
  deriving DecidableEq, Repr

/-- The parents of one frontier: `none` when the target is among them, and else what has been
visited by now with the next frontier. -/
def IndexSet.walkParents (target : OID) :
    List OID → List OID → List OID → Option (List OID × List OID)
  | [], visited, next => some (visited, next)
  | parent :: rest, visited, next =>
    if parent = target then none
    else if parent ∈ visited then IndexSet.walkParents target rest visited next
    else IndexSet.walkParents target rest (parent :: visited) (next ++ [parent])

def IndexSet.walkFrom (set : IndexSet) (target : OID) : Nat → Int → List OID → List OID → Int
  | 0, _, _, _ => -1
  | turns + 1, depth, visited, frontier =>
    if frontier = [] then -1
    else match IndexSet.walkParents target (frontier.flatMap set.parents) visited [] with
      | none => depth + 1
      | some (visited, next) => set.walkFrom target turns (depth + 1) visited next

/-- How many commits back from `source` the target is found, or -1. -/
def IndexSet.walkBackOID (set : IndexSet) (source target : OID) (bound : Int) :
    Except WalkError Int :=
  match parseOID source, parseOID target with
  | none, _ => .error (.parse source)
  | some _, none => .error (.parse target)
  | some first, some last =>
    if set.has first = false then .error (.notInSet source)
    else if first = last then .ok 0
    else .ok (set.walkFrom last bound.toNat 0 [first] [first])

def loadGenLookup (store : Artifacts) (body : Body) :
    Except LoadError (Finmap fun _ : OID => UInt32) :=
  match body.indexes.commitGraph with
  | none => .error .noIndex
  | some graphRef => do
    let graph ← fetch store.graphs graphRef.key
    let deltas ← loadDeltas store body
    .ok (Dict.insertAll ((graph.commits ++ deltas.flatMap Delta.commits).map
      fun record => (record.oid, record.generation)) ∅)

/-! The delta of a push. -/

def refTip (u : UpdateCommand) : RefTipDiff :=
  ⟨u.refname, if deletes u.oldOID then nullOID else u.oldOID,
    if deletes u.newOID then nullOID else u.newOID⟩

/-- The order of Go strings: byte by byte, a beginning before its continuations. -/
def bytesLe : List Nat → List Nat → Bool
  | [], _ => true
  | _ :: _, [] => false
  | a :: as, b :: bs => if a == b then bytesLe as bs else a.blt b

def oidLe (a b : OID) : Bool := bytesLe (a.toList.map Char.toNat) (b.toList.map Char.toNat)

def nameLe (a b : RefName) : Bool := bytesLe (a.map UInt8.toNat) (b.map UInt8.toNat)

/-- `buildDelta`, as `deltaindex.Encode` writes it: commits by OID, tips by ref name. -/
def buildDelta (commits : Commits git) (known : Finmap fun _ : OID => UInt32) (newOIDs : List OID)
    (accepted : List UpdateCommand) (packs : List PackID) : Delta where
  commits := (newOIDs.insertionSort fun a b => oidLe a b).map
    (commitRecord commits known.lookup (· ∈ newOIDs))
  refTips := (accepted.map refTip).insertionSort fun a b => nameLe a.refName b.refName
  packs := packs

def commitGraphRef (store : Artifacts) (graph : CommitGraph) : IndexRef :=
  ⟨commitGraphKey (store.graphHash graph), store.graphHash graph, 0⟩

def objectMapRef (store : Artifacts) (table : ObjectMap) : IndexRef :=
  ⟨objectMapKey (store.mapHash table), store.mapHash table, 0⟩

def deltaRef (store : Artifacts) (delta : Delta) : IndexRef :=
  ⟨reachabilityDeltaKey (store.deltaHash delta), store.deltaHash delta, store.deltaSize delta⟩

/-- `fmt.Sprintf("v%08d", version)`. -/
def versionTag (version : Nat) : String :=
  let digits := Nat.toDigits 10 version
  "v" ++ String.ofList (List.replicate (8 - digits.length) '0' ++ digits)

inductive PatchError where
  | load (cause : LoadError)
  | build (cause : BuildError)
  deriving DecidableEq, Repr

/-- `makeDeltaPatcher`: no delta for a push that changed nothing, nor over a root that has no
commit graph to extend. -/
def makeDelta (commits : Commits git) (store : Artifacts) (current : Body)
    (accepted : List UpdateCommand) (newOIDs : List OID) (packs : List PackID)
    (prePushVersion : Nat) : Except PatchError Patch :=
  if accepted = [] ∧ newOIDs = [] then .ok ⟨none, versionTag prePushVersion⟩
  else match loadGenLookup store current with
    | .error .noIndex => .ok ⟨none, versionTag prePushVersion⟩
    | .error cause => .error (.load cause)
    | .ok known => do
      let delta := buildDelta commits known newOIDs accepted packs
      (delta.commits.forM checkParentCount).mapError .build
      .ok ⟨some (deltaRef store delta), versionTag prePushVersion⟩

/-! `reachability.Load` over a body whose index references were made by the builders, and what
replaying its delta chain does to a ref map. -/

open RefNames

/-! What the builders return. -/

variable {commits : Commits git} {store : Artifacts}

variable {id : PackID} {refs : RefMap} {graph : CommitGraph} {table : ObjectMap} {body : Body}
  {accepted : List UpdateCommand} {newOIDs : List OID} {packs : List PackID} {version : Nat}
  {deltas : List Delta} {name : RefName} {tip : RefTipDiff} {oid : OID}

theorem buildCommitGraph_ok (built : buildCommitGraph commits id refs = .ok graph) :
    graph.commits = ((commits.listing id).filter commits.isCommit).map
      (commitRecord commits (fun _ => none)
        (· ∈ (commits.listing id).filter commits.isCommit)) := by
  obtain ⟨⟨⟩, -, built⟩ := bind_ok built
  obtain ⟨⟨⟩, -, built⟩ := bind_ok built
  obtain ⟨⟨⟩, -, built⟩ := bind_ok built
  cases built
  rfl

section

variable (built : buildObjectMap commits id = .ok table)

include built

theorem buildObjectMap_ok :
    table = ⟨(commits.listing id).map fun oid => ⟨oid, 0, commits.offset id oid⟩,
      if commits.listing id = [] then [] else [id]⟩ := by
  obtain ⟨⟨⟩, -, built⟩ := bind_ok built
  exact (Except.ok.inj built).symm

theorem packTable_of_built {other : PackID} (member : other ∈ table.packTable) : other = id := by
  rw [buildObjectMap_ok built] at member
  split at member
  · cases member
  · exact List.mem_singleton.mp member

theorem lookup_of_built (oid : OID) : (table.lookup oid).isSome = true ↔ oid ∈ git.contents id := by
  rw [← commits.mem_listing id oid]
  obtain rfl := buildObjectMap_ok built
  unfold ObjectMap.lookup
  cases chosen : ((commits.listing id).map fun oid =>
      (⟨oid, 0, commits.offset id oid⟩ : MapRecord)).find? fun record => record.oid = oid with
  | none =>
    have absent := List.find?_eq_none.mp chosen
    simp only [bind_none, isSome_none, Bool.false_eq_true, false_iff]
    intro member
    exact absent _ (List.mem_map_of_mem member) (decide_eq_true rfl)
  | some record =>
    have same := List.find?_some chosen
    obtain ⟨listed, member, rfl⟩ := List.mem_map.mp (List.mem_of_find?_eq_some chosen)
    simp only [decide_eq_true_eq] at same
    simp [ne_nil_of_mem member, same ▸ member]

end

def Real (commits : Commits git) (records : List CommitRecord) : Prop :=
  ∀ record ∈ records, record.parents = commits.parents record.oid

theorem real_of_built (built : buildCommitGraph commits id refs = .ok graph) :
    Real commits graph.commits := by
  intro record member
  rw [buildCommitGraph_ok built] at member
  obtain ⟨oid, -, rfl⟩ := List.mem_map.mp member
  rfl

theorem record_of_built (built : buildCommitGraph commits id refs = .ok graph) (oid : OID) :
    (graph.record oid).isSome = true ↔ oid ∈ git.contents id ∧ commits.isCommit oid = true := by
  rw [CommitGraph.record, List.find?_isSome, buildCommitGraph_ok built]
  constructor
  · rintro ⟨record, member, same⟩
    obtain ⟨listed, found, rfl⟩ := List.mem_map.mp member
    obtain ⟨inside, commit⟩ := mem_filter.mp found
    have equal : listed = oid := of_decide_eq_true same
    exact equal ▸ ⟨(commits.mem_listing id listed).mp inside, commit⟩
  · rintro ⟨inside, commit⟩
    have found := mem_filter.mpr ⟨(commits.mem_listing id oid).mpr inside, commit⟩
    exact ⟨_, List.mem_map_of_mem found, decide_eq_true rfl⟩

theorem real_buildDelta (known : Finmap fun _ : OID => UInt32) (newOIDs : List OID)
    (accepted : List UpdateCommand) (packs : List PackID) :
    Real commits (buildDelta commits known newOIDs accepted packs).commits := by
  intro record member
  obtain ⟨oid, -, rfl⟩ := List.mem_map.mp member
  rfl

theorem fetch_ne_noIndex {α : Type} (held : Key → Option α) (key : Key) :
    fetch held key ≠ .error .noIndex := by
  unfold fetch
  split <;> simp

theorem loadDeltas_ne_noIndex (body : Body) : loadDeltas store body ≠ .error .noIndex := by
  unfold loadDeltas
  induction deltaRefs body with
  | nil => simp [pure, Except.pure]
  | cons ref rest ih =>
    rw [mapM_cons]
    intro failed
    rcases bind_error_iff.mp failed with here | ⟨delta, -, later⟩
    · exact fetch_ne_noIndex _ _ here
    · rcases bind_error_iff.mp later with there | ⟨deltas, -, done⟩
      · exact ih there
      · cases done

theorem loadGenLookup_noIndex (missing : loadGenLookup store body = .error .noIndex) :
    body.indexes.commitGraph = none := by
  unfold loadGenLookup at missing
  split at missing
  · assumption
  · next graphRef _ =>
      -- what goes wrong with an object is never the absence of the reference
      rcases bind_error_iff.mp missing with here | ⟨graph, -, later⟩
      · exact absurd here (fetch_ne_noIndex _ _)
      · rcases bind_error_iff.mp later with here | ⟨deltas, -, done⟩
        · exact absurd here (loadDeltas_ne_noIndex _)
        · cases done

theorem makeDelta_ok {current : Body} {patch : Patch}
    (made : makeDelta commits store current accepted newOIDs packs version = .ok patch) :
    (patch.delta = none ∧ (accepted = [] ∨ current.indexes.commitGraph = none)) ∨
      ∃ known, patch.delta = some (deltaRef store
        (buildDelta commits known newOIDs accepted packs)) := by
  unfold makeDelta at made
  split at made
  · next nothing =>
      cases made
      exact .inl ⟨rfl, .inl nothing.1⟩
  · split at made
    · next missing =>
        cases made
        exact .inl ⟨rfl, .inr (loadGenLookup_noIndex missing)⟩
    · cases made
    · next known _ =>
        obtain ⟨⟨⟩, -, made⟩ := bind_ok made
        cases made
        exact .inr ⟨known, rfl⟩

/-! The delta chain. -/

def chainOf (store : Artifacts) (refs : List IndexRef) : List Delta :=
  refs.filterMap fun ref => store.deltas ref.key

@[simp] theorem chainOf_map (deltas : List Delta) :
    chainOf store (deltas.map (deltaRef store)) = deltas := by
  unfold chainOf
  rw [filterMap_map]
  have held : (fun ref => store.deltas ref.key) ∘ deltaRef store = some :=
    funext fun delta => store.delta_held delta
  rw [held, filterMap_some]

theorem Artifacts.deltaHash_injective (store : Artifacts) : Function.Injective store.deltaHash := by
  intro left right same
  apply some.inj
  rw [← store.delta_held left, same, store.delta_held right]

theorem loadDeltas_ok (chain : deltaRefs body = deltas.map (deltaRef store)) :
    loadDeltas store body = .ok deltas := by
  unfold loadDeltas
  rw [chain, mapM_map]
  have each : ∀ delta ∈ deltas, fetch store.deltas (deltaRef store delta).key = .ok (id delta) := by
    intro delta _
    unfold fetch
    rw [show store.deltas (deltaRef store delta).key = some delta from store.delta_held delta]
    rfl
  exact (Lists.mapM_ok each).trans (by rw [List.map_id])

def lastTip (deltas : List Delta) (name : RefName) : Option RefTipDiff :=
  (deltas.flatMap Delta.refTips).reverse.find? fun tip => tip.refName = name

def RefTipDiff.value (tip : RefTipDiff) : Option OID :=
  if deletes tip.newOID then none else some tip.newOID

theorem lastTip_append (deltas more : List Delta) (name : RefName) :
    lastTip (deltas ++ more) name = (lastTip more name).or (lastTip deltas name) := by
  simp [lastTip]

theorem lastTip_some (last : lastTip deltas name = some tip) :
    tip.refName = name ∧ ∃ delta ∈ deltas, tip ∈ delta.refTips := by
  have same := List.find?_some last
  have member := mem_reverse.mp (List.mem_of_find?_eq_some last)
  exact ⟨of_decide_eq_true same, mem_flatMap.mp member⟩

theorem lastTip_none (none : lastTip deltas name = none) :
    ∀ delta ∈ deltas, ∀ tip ∈ delta.refTips, tip.refName ≠ name := by
  intro delta member tip inside same
  have absent := List.find?_eq_none.mp none tip
    (mem_reverse.mpr (mem_flatMap.mpr ⟨delta, member, inside⟩))
  exact absent (decide_eq_true same)

theorem mem_refTips_buildDelta {known : Finmap fun _ : OID => UInt32} :
    tip ∈ (buildDelta commits known newOIDs accepted packs).refTips ↔
      ∃ u ∈ accepted, refTip u = tip := by
  simp [buildDelta]

theorem value_refTip {u : UpdateCommand} (hex : isHexOID u.newOID = true) :
    (refTip u).value = wanted u.newOID := by
  unfold RefTipDiff.value wanted refTip
  by_cases null : u.newOID = nullOID
  · have gone : deletes nullOID = true := by decide
    simp [null, gone]
  · have kept : deletes u.newOID = false := Bool.eq_false_iff.mpr (mt (deletes_iff hex).mp null)
    simp [kept, null]

theorem lookup_replay (deltas : List Delta) (refs : RefMap) (name : RefName) :
    (replay deltas refs).lookup name =
      match lastTip deltas name with
      | some tip => tip.value
      | none => refs.lookup name := by
  unfold replay lastTip
  induction deltas.flatMap Delta.refTips using reverseRecOn with
  | nil => rfl
  | append_singleton tips tip ih =>
    rw [map_append, applyUpdates_append, reverse_append, reverse_singleton,
      singleton_append, List.find?_cons]
    show (applyUpdate _ (tip.refName, tip.newOID)).lookup name = _
    rw [lookup_applyUpdate]
    by_cases same : tip.refName = name
    · simp [same, RefTipDiff.value]
    · rw [if_neg (Ne.symm same), ih, decide_eq_false same]

theorem replay_eq_self_iff :
    replay deltas refs = refs ↔
      ∀ name tip, lastTip deltas name = some tip → refs.lookup name = tip.value := by
  constructor
  · intro same name tip last
    have here := lookup_replay deltas refs name
    rwa [same, last] at here
  · intro agree
    apply ext_lookup
    intro name
    rw [lookup_replay]
    cases last : lastTip deltas name with
    | none => rfl
    | some tip => exact (agree name tip last).symm

theorem isSome_deltaIndex :
    ((deltaIndex deltas).lookup oid).isSome = true ↔
      ∃ delta ∈ deltas, ∃ record ∈ delta.commits, record.oid = oid := by
  rw [lookup_isSome, deltaIndex, mem_insertAll]
  simp only [map_flatMap, mem_flatMap, List.map_map, List.mem_map, notMem_empty,
    or_false, Function.comp_apply]

theorem lookup_deltaIndex {record : CommitRecord}
    (found : (deltaIndex deltas).lookup oid = some record) :
    record.oid = oid ∧ ∃ delta ∈ deltas, record ∈ delta.commits := by
  rcases lookup_insertAll _ _ found with inside | before
  · obtain ⟨delta, member, here⟩ := mem_flatMap.mp inside
    obtain ⟨listed, recorded, same⟩ := List.mem_map.mp here
    obtain ⟨rfl, rfl⟩ := Prod.mk.inj same
    exact ⟨rfl, delta, member, recorded⟩
  · simp at before

theorem fetch_graph (graph : CommitGraph) :
    fetch store.graphs (commitGraphRef store graph).key = .ok graph := by
  unfold fetch
  rw [show store.graphs (commitGraphRef store graph).key = some graph from store.graph_held graph]

def generations (graph : CommitGraph) (deltas : List Delta) : Finmap fun _ : OID => UInt32 :=
  Dict.insertAll ((graph.commits ++ deltas.flatMap Delta.commits).map
    fun record => (record.oid, record.generation)) ∅

section

variable (base : body.indexes.commitGraph = some (commitGraphRef store graph))

include base

theorem loadGenLookup_ok (chain : deltaRefs body = deltas.map (deltaRef store)) :
    loadGenLookup store body = .ok (generations graph deltas) := by
  unfold loadGenLookup
  rw [base]
  simp only [fetch_graph, loadDeltas_ok chain]
  rfl

theorem makeDelta_of_indexed {delta : Delta} (chain : deltaRefs body = deltas.map (deltaRef store))
    (changes : accepted ≠ [])
    (built : buildDelta commits (generations graph deltas) newOIDs accepted packs = delta)
    (counted : delta.commits.forM checkParentCount = .ok ()) :
    makeDelta commits store body accepted newOIDs packs version =
      .ok ⟨some (deltaRef store delta), versionTag version⟩ := by
  subst built
  unfold makeDelta
  rw [if_neg fun none => changes none.1, loadGenLookup_ok base chain]
  simp [counted]

end

/-! Loading. -/

theorem toLower_lowerHex {c : Char} (hex : lowerHex c = true) : c.toLower = c := by
  unfold Char.toLower
  split
  · next upper =>
      simp only [lowerHex, Char.le_def, UInt32.le_iff_toNat_le] at hex upper
      simp at hex upper
      omega
  · rfl

theorem parseOID_of_valid (valid : validOID oid = true) : parseOID oid = some oid := by
  obtain ⟨hex, -⟩ := Bool.and_eq_true_iff.mp valid
  obtain ⟨length, digits⟩ := Bool.and_eq_true_iff.mp hex
  have each := List.all_eq_true.mp digits
  have either : oid.toList.all hexDigit = true := by
    refine List.all_eq_true.mpr fun c member => ?_
    have lower := each c member
    simp only [lowerHex, hexDigit, decide_eq_true_eq] at lower ⊢
    exact lower.imp_right .inl
  have same : oid.toList.map .toLower = oid.toList := by
    conv_rhs => rw [← List.map_id oid.toList]
    exact map_congr_left fun c member => toLower_lowerHex (each c member)
  unfold parseOID
  rw [if_pos ⟨of_decide_eq_true length, either⟩, same, String.ofList_toList]

theorem not_deletes_of_valid (valid : validOID oid = true) : deletes oid = false := by
  obtain ⟨hex, other⟩ := Bool.and_eq_true_iff.mp valid
  rw [Bool.eq_false_iff, ne_eq, deletes_iff hex]
  exact of_decide_eq_true other

theorem parseRefs_of_valid (valid : ∀ name oid, refs.lookup name = some oid → validOID oid = true) :
    parseRefs refs = .ok refs := by
  have values : ∀ entry ∈ Dict.entries refs, validOID entry.2 = true := fun entry member =>
    valid entry.1 entry.2 ((mem_entries refs entry.1 entry.2).mp member)
  have all : (Dict.entries refs).filter (fun entry => !deletes entry.2) = Dict.entries refs :=
    filter_eq_self.mpr fun entry member => by
      rw [not_deletes_of_valid (values entry member)]
      rfl
  have each : ∀ entry ∈ Dict.entries refs, parseRef entry = .ok (id entry) := by
    intro entry member
    unfold parseRef
    rw [parseOID_of_valid (values entry member)]
    rfl
  unfold parseRefs
  rw [all, Lists.mapM_ok each, List.map_id]
  show Except.ok (insertAll (Dict.entries refs) ∅) = Except.ok refs
  rw [insertAll_entries]

/-- The body's index references lead to these objects. -/
structure Described (store : Artifacts) (body : Body) (graph : CommitGraph) (table : ObjectMap)
    (deltas : List Delta) : Prop where
  graph : body.indexes.commitGraph = some (commitGraphRef store graph)
  table : body.indexes.objectMap = some (objectMapRef store table)
  chain : deltaRefs body = deltas.map (deltaRef store)

theorem openObjectMap_ref (table : ObjectMap) :
    openObjectMap store (objectMapRef store table) = .ok table := by
  unfold openObjectMap fetch
  rw [show store.maps (objectMapRef store table).key = some table from store.map_held table]
  simp [objectMapRef, require]

variable {h : Hashing} {objects : Objects}

theorem Described.load (described : Described store body graph table deltas)
    (listed : list h objects body = .ok refs)
    (valid : ∀ name oid, refs.lookup name = some oid → validOID oid = true) :
    Reachability.load h objects store body =
      .ok ⟨graph, table, deltas, replay deltas refs, deltaIndex deltas⟩ := by
  unfold Reachability.load
  rw [described.graph, described.table]
  simp only [fetch_graph, openObjectMap_ref, loadDeltas_ok described.chain, listed, mapError_value,
    parseRefs_of_valid valid, bind, Except.bind]

theorem IndexSet.has_iff :
    (⟨graph, table, deltas, refs, deltaIndex deltas⟩ : IndexSet).has oid = true ↔
      (∃ delta ∈ deltas, ∃ record ∈ delta.commits, record.oid = oid) ∨
        (graph.record oid).isSome = true := by
  rw [IndexSet.has, Bool.or_eq_true, isSome_deltaIndex]

theorem IndexSet.parents_of_real (base : Real commits graph.commits)
    (chain : ∀ delta ∈ deltas, Real commits delta.commits)
    (known : (⟨graph, table, deltas, refs, deltaIndex deltas⟩ : IndexSet).has oid = true) :
    (⟨graph, table, deltas, refs, deltaIndex deltas⟩ : IndexSet).parents oid =
      commits.parents oid := by
  unfold IndexSet.parents
  split
  · next record found =>
      obtain ⟨rfl, delta, member, recorded⟩ := lookup_deltaIndex found
      exact chain delta member record recorded
  · next absent =>
      split
      · next record found =>
          have same := List.find?_some found
          rw [base record (List.mem_of_find?_eq_some found)]
          exact congrArg commits.parents (of_decide_eq_true same)
      · next missing =>
          simp [IndexSet.has, absent, missing] at known

end BucketVcs.Reachability

/-! `WalkBackOID` searches level by level, so it finds a commit at its shortest distance. -/

namespace BucketVcs.Reachability.IndexSet

open Manifest

/-- There is a path of so many parents from `source`. -/
def Hops (set : IndexSet) (source : OID) : Nat → OID → Prop
  | 0, oid => oid = source
  | n + 1, oid => ∃ middle, set.Hops source n middle ∧ oid ∈ set.parents middle

def isAncestor (set : IndexSet) (ancestor descendant : OID) (bound : Int) : Bool :=
  match set.walkBackOID descendant ancestor bound with
  | .ok n => 0 ≤ n
  | .error _ => false

/-- The state of the search after so many levels. -/
structure Level (set : IndexSet) (source target : OID) (depth : Nat) (visited frontier : List OID) :
    Prop where
  seen : ∀ oid, oid ∈ visited ↔ ∃ n ≤ depth, set.Hops source n oid
  last : ∀ oid ∈ frontier, set.Hops source depth oid
  closed : ∀ oid ∈ visited, oid ∉ frontier → ∀ parent ∈ set.parents oid, parent ∈ visited
  missed : target ∉ visited

variable {set : IndexSet} {source target oid : OID} {depth : Nat} {visited frontier : List OID}

theorem walkParents_spec (target : OID) (parents visited next : List OID) :
    (target ∈ parents ∧ walkParents target parents visited next = none) ∨
      target ∉ parents ∧ ∃ visited' next',
        walkParents target parents visited next = some (visited', next') ∧
        (∀ oid, oid ∈ visited' ↔ oid ∈ parents ∨ oid ∈ visited) ∧
        ∀ oid, oid ∈ next' ↔ oid ∈ next ∨ oid ∈ parents ∧ oid ∉ visited := by
  fun_induction walkParents target parents visited next with
  | case1 visited next => exact .inr ⟨List.not_mem_nil, visited, next, rfl, by simp, by simp⟩
  | case2 => exact .inl ⟨List.mem_cons_self, rfl⟩
  | case3 parent rest visited next other old ih => grind
  | case4 parent rest visited next other new ih => grind

theorem Level.covers (level : Level set source target depth visited frontier) :
    oid ∈ frontier.flatMap set.parents ∨ oid ∈ visited ↔
      ∃ n ≤ depth + 1, set.Hops source n oid := by
  constructor
  · rintro (parent | old)
    · obtain ⟨middle, last, parent⟩ := List.mem_flatMap.mp parent
      exact ⟨depth + 1, le_rfl, middle, level.last middle last, parent⟩
    · obtain ⟨n, within, hops⟩ := (level.seen oid).mp old
      exact ⟨n, within.trans (Nat.le_succ _), hops⟩
  · rintro ⟨n, within, hops⟩
    rcases Nat.le_succ_iff.mp within with earlier | rfl
    · exact .inr ((level.seen oid).mpr ⟨n, earlier, hops⟩)
    obtain ⟨middle, there, parent⟩ := hops
    by_cases last : middle ∈ frontier
    · exact .inl (List.mem_flatMap.mpr ⟨middle, last, parent⟩)
    · have old := (level.seen middle).mpr ⟨depth, le_rfl, there⟩
      exact .inr (level.closed middle old last oid parent)

theorem Level.covers_all (level : Level set source target depth visited []) {n : Nat}
    (hops : set.Hops source n oid) : oid ∈ visited := by
  induction n generalizing oid with
  | zero => exact (level.seen oid).mpr ⟨0, Nat.zero_le _, hops⟩
  | succ n ih =>
    obtain ⟨middle, there, parent⟩ := hops
    exact level.closed middle (ih there) List.not_mem_nil oid parent

theorem Level.next (level : Level set source target depth visited frontier)
    {visited' next : List OID} (missed : target ∉ frontier.flatMap set.parents)
    (seen : ∀ oid, oid ∈ visited' ↔ oid ∈ frontier.flatMap set.parents ∨ oid ∈ visited)
    (later : ∀ oid, oid ∈ next ↔ oid ∈ frontier.flatMap set.parents ∧ oid ∉ visited) :
    Level set source target (depth + 1) visited' next where
  seen := fun oid => (seen oid).trans level.covers
  missed := fun member => ((seen target).mp member).elim missed level.missed
  last := by
    intro oid member
    obtain ⟨middle, last, parent⟩ := List.mem_flatMap.mp ((later oid).mp member).1
    exact ⟨middle, level.last middle last, parent⟩
  closed := by
    intro oid member fresh parent above
    rw [seen]
    by_cases last : oid ∈ frontier
    · exact .inl (List.mem_flatMap.mpr ⟨oid, last, above⟩)
    · exact .inr (level.closed oid (by grind) last parent above)

theorem Level.walkFrom (level : Level set source target depth visited frontier) (turns : Nat) :
    (∃ n ≤ depth + turns, IsLeast {n | set.Hops source n target} n ∧
      set.walkFrom target turns depth visited frontier = n) ∨
    (∀ n ≤ depth + turns, ¬ set.Hops source n target) ∧
      set.walkFrom target turns depth visited frontier = -1 := by
  have missed : ∀ n ≤ depth, ¬ set.Hops source n target := fun n within hops =>
    level.missed ((level.seen target).mpr ⟨n, within, hops⟩)
  induction turns generalizing depth visited frontier with
  | zero => exact .inr ⟨missed, rfl⟩
  | succ turns ih =>
    unfold IndexSet.walkFrom
    by_cases done : frontier = []
    · subst done
      exact .inr ⟨fun n _ hops => level.missed (level.covers_all hops), rfl⟩
    rw [if_neg done]
    rcases walkParents_spec target (frontier.flatMap set.parents) visited [] with
      ⟨found, same⟩ | ⟨absent, visited', next, same, seen, later⟩
    · obtain ⟨n, within, hops⟩ := level.covers.mp (.inl found)
      have least : IsLeast {n | set.Hops source n target} n :=
        ⟨hops, fun m other => le_of_not_gt fun less => missed m (by omega) other⟩
      have here : n = depth + 1 := by
        by_contra other
        exact missed n (by omega) hops
      exact .inl ⟨n, by omega, least, by simp [same, here]⟩
    · have deeper := level.next absent seen (by simpa using later)
      have more := ih deeper fun n within hops =>
        deeper.missed ((deeper.seen target).mpr ⟨n, within, hops⟩)
      simpa [same, Nat.add_right_comm, Nat.add_assoc] using more

theorem walkBackOID_cases {first last : OID} (start : parseOID source = some first)
    (wanted : parseOID target = some last) (known : set.has first = true) (bound : Nat) :
    (∃ n ≤ bound, IsLeast {n | set.Hops first n last} n ∧
      set.walkBackOID source target bound = .ok n) ∨
    (∀ n ≤ bound, ¬ set.Hops first n last) ∧ set.walkBackOID source target bound = .ok (-1) := by
  unfold walkBackOID
  simp only [start, wanted, known]
  by_cases same : first = last
  · exact .inl ⟨0, Nat.zero_le _, ⟨same.symm, fun _ _ => Nat.zero_le _⟩, by simp [same]⟩
  · have level : Level set first last 0 [first] [first] :=
      ⟨by simp [Hops], by simp [Hops], by simp, by simpa using Ne.symm same⟩
    simpa [same] using level.walkFrom bound

/-- The answer is the length of a shortest parent path if that is within the bound, and else -1. -/
theorem walkBackOID_shortest {first last : OID} (start : parseOID source = some first)
    (wanted : parseOID target = some last) (known : set.has first = true) (bound : Nat) :
    (∀ d : Nat, set.walkBackOID source target bound = .ok d ↔
      IsLeast {n | set.Hops first n last} d ∧ d ≤ bound) ∧
    (set.walkBackOID source target bound = .ok (-1) ↔ ∀ n ≤ bound, ¬ set.Hops first n last) ∧
    (set.isAncestor target source bound = true ↔ ∃ n ≤ bound, set.Hops first n last) ∧
    ∀ more : Nat, bound ≤ more → set.isAncestor target source bound = true →
      set.isAncestor target source more = true := by
  have found_iff (bound : Nat) :
      set.isAncestor target source bound = true ↔ ∃ n ≤ bound, set.Hops first n last := by
    unfold isAncestor
    rcases walkBackOID_cases start wanted known bound with ⟨n, within, least, same⟩ | ⟨none, same⟩
    · simpa [same] using ⟨n, within, least.1⟩
    · simpa [same] using none
  rw [← and_assoc]
  refine ⟨?_, found_iff bound, fun more larger found => ?_⟩
  · rcases walkBackOID_cases start wanted known bound with ⟨n, within, least, same⟩ | ⟨none, same⟩
    · rw [same]
      refine ⟨fun d => ⟨fun equal => ?_, fun other => by rw [least.unique other.1]⟩, ?_⟩
      · obtain rfl : n = d := Int.ofNat.inj (Except.ok.inj equal)
        exact ⟨least, within⟩
      · simpa using ⟨n, within, least.1⟩
    · rw [same]
      refine ⟨fun d => ⟨fun wrong => ?_, fun other => absurd other.1.1 (none d other.2)⟩, by simpa⟩
      cases wrong
  · obtain ⟨n, within, hops⟩ := (found_iff bound).mp found
    exact (found_iff more).mpr ⟨n, within.trans larger, hops⟩

theorem walkBackOID_shortest_parent :
    let one := String.ofList (List.replicate 40 '1')
    let two := String.ofList (List.replicate 40 '2')
    let set : IndexSet := ⟨⟨[⟨two, 2, [one]⟩, ⟨one, 1, []⟩], []⟩, ⟨[], []⟩, [], ∅, ∅⟩
    set.walkBackOID two one 1 = .ok 1 ∧ IsLeast {n | set.Hops two n one} 1 :=
  have found := by decide +kernel
  ⟨found, (((walkBackOID_shortest (by decide +kernel) (by decide +kernel) (by decide +kernel)
    1).1 1).mp found).1⟩

end BucketVcs.Reachability.IndexSet
