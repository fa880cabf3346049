import BucketVcs.RefNames
import BucketVcs.RefStore

/-! `importer.BuildAndCommit` up to its commit: the body a push writes over the root it
read, built from the ref updates and the bare repository they were applied to. -/

namespace BucketVcs.Importer

open Manifest RefStore Results

/-- What is assumed of git: the objects an object names, the objects of a pack, and the
names `check-ref-format` accepts. A pack id is a hash of the pack's bytes, so it fixes
the pack's objects. -/
structure Git where
  links : OID → Finset OID
  contents : PackID → Finset OID
  checkRefFormat : RefName → Bool

/-- The decoded root manifest, as far as the writers look at it. -/
structure Root where
  manifestVersion : Nat
  version : Nat
  body : Body
  deriving DecidableEq

/-- The local bare repository: its refs and the objects it holds. -/
structure Bare where
  refs : RefMap
  objects : Finset OID

/-- What `pack-objects` and the index builders return for one push. -/
structure Repack where
  packID : PackID
  sizeBytes : Int
  objectCount : Int
  objectMapHash : String
  commitGraphHash : String

/-- The `.bvrd` delta the patcher appends, if it makes one, and the base version it names
when it starts the chain. -/
structure Patch where
  delta : Option IndexRef
  baseManifest : String

inductive Error where
  | body (cause : BodyError)
  | emptyRefname
  | invalidRefname (name : RefName)
  | refStore (cause : RefStore.Error)
  | deletesDefaultBranch (name : RefName)
  | tipsNotInBare
  | tipsNotInPack
  | invalidDefaultBranch (name : RefName)
  | rejectedDefaultBranch (name : RefName)
  | missingDefaultBranch (name : RefName)
  deriving DecidableEq, Repr

/-- A push ready to be committed: `base` is the root read, `writes` the shard objects,
`effective` the refs after the push, `pack` the uploaded pack and `body` the new body. -/
structure Plan where
  base : Root
  updates : Updates
  writes : List ShardWrite
  effective : RefMap
  pack : Option PackEntry
  body : Body
  deriving DecidableEq

def checkRefname (update : RefName × OID) : Except Error Unit :=
  if update.1 = [] then .error .emptyRefname
  else require (RefNames.validFullRefName update.1) (.invalidRefname update.1)

def checkRefnames (updates : Updates) : Except Error Unit := updates.forM checkRefname

/-- Deleting the current default branch is refused. Where the stage does not cover the
branch, its value is taken to be the one before. -/
def guardDefaultBranch (h : Hashing) (objects : Objects) (current : Body) (stage : Stage) :
    Except Error Unit :=
  if current.defaultBranch = [] then .ok ()
  else do
    let before ← (RefStore.lookup h objects current current.defaultBranch).mapError .refStore
    let kept := match stage.lookup h current.defaultBranch with
      | .ok after => after.isSome
      | .error _ => before.isSome
    require (!(before.isSome && !kept)) (.deletesDefaultBranch current.defaultBranch)

def buildEffectiveRefs (h : Hashing) (objects : Objects) (current : Body) (updates : Updates) :
    Stage → Except Error RefMap
  | .inline refs => .ok refs
  | .sharded _ _ => do
    let listed ← (RefStore.list h objects current).mapError .refStore
    .ok (applyUpdates updates listed)

def emptyTarget : Stage → Bool
  | .inline refs => refs = ∅
  | .sharded _ shards => shards = []

def stageWrites : Stage → List ShardWrite
  | .inline _ => []
  | .sharded writes _ => writes

def tipsIn (objects : Finset OID) (refs : RefMap) : Bool :=
  (Dict.entries refs).all fun entry => entry.2 ∈ objects

theorem tipsIn_iff {objects : Finset OID} {refs : RefMap} :
    tipsIn objects refs = true ↔ ∀ name oid, refs.lookup name = some oid → oid ∈ objects := by
  simp only [tipsIn, List.all_eq_true, decide_eq_true_eq]
  constructor
  · intro all name oid found
    exact all (name, oid) ((Dict.mem_entries refs name oid).mpr found)
  · rintro all ⟨name, oid⟩ member
    exact all name oid ((Dict.mem_entries refs name oid).mp member)

def emptyBody (current : Body) : Body :=
  { defaultBranch := current.defaultBranch
    refs := ∅
    refShards := []
    refSharding := ""
    packs := []
    indexes := ⟨none, none, none⟩
    bundles := current.bundles }

def packEntry (repack : Repack) : PackEntry :=
  { packID := repack.packID
    packKey := canonicalPackKey repack.packID
    idxKey := packIdxKey repack.packID
    sizeBytes := repack.sizeBytes
    objectCount := repack.objectCount
    packChecksum := ""
    bitmapKey := "" }

/-- The chain of the previous body, with the delta of this push appended. -/
def patchReachability (prev : Option ReachabilityRef) (patch : Patch) : Option ReachabilityRef :=
  match patch.delta with
  | none => prev
  | some delta =>
    let chain := prev.getD ⟨patch.baseManifest, []⟩
    some { chain with deltas := chain.deltas ++ [delta] }

def draftBody (current : Body) (stage : Stage) (repack : Repack) (patch : Patch) : Body :=
  { defaultBranch := current.defaultBranch
    refs := match stage with
      | .inline refs => refs
      | .sharded _ _ => ∅
    refShards := match stage with
      | .inline _ => []
      | .sharded _ shards => shards
    refSharding := match stage with
      | .inline _ => ""
      | .sharded _ _ => "hash_v1"
    packs := [packEntry repack]
    indexes :=
      { objectMap := some ⟨objectMapKey repack.objectMapHash, repack.objectMapHash, 0⟩
        commitGraph := some ⟨commitGraphKey repack.commitGraphHash, repack.commitGraphHash, 0⟩
        reachability := patchReachability current.indexes.reachability patch }
    bundles := current.bundles }

def prepare (h : Hashing) (git : Git) (objects : Objects) (base : Root) (bare : Bare)
    (updates : Updates) (repack : Repack) (patch : Patch) : Except Error Plan := do
  let current ← (unmarshalBody base.body).mapError .body
  checkRefnames updates
  let stage ← (RefStore.stage h objects current updates).mapError .refStore
  guardDefaultBranch h objects current stage
  let effective ← buildEffectiveRefs h objects current updates stage
  require (tipsIn bare.objects effective) .tipsNotInBare
  if emptyTarget stage then
    let body ← (marshalBody (emptyBody current)).mapError .body
    .ok ⟨base, updates, stageWrites stage, effective, none, body⟩
  else
    require (tipsIn (git.contents repack.packID) effective) .tipsNotInPack
    let body ← (marshalBody (draftBody current stage repack patch)).mapError .body
    .ok ⟨base, updates, stageWrites stage, effective, some (packEntry repack), body⟩

/-- What a successful `prepare` says of its plan. -/
structure Prepared (h : Hashing) (git : Git) (objects : Objects) (made : Repack) (patch : Patch)
    (plan : Plan) (stage : Stage) : Prop where
  valid : validateBody plan.base.body = .ok ()
  names : ∀ update ∈ plan.updates, RefNames.validFullRefName update.1 = true
  staged : RefStore.stage h objects plan.base.body plan.updates = .ok stage
  guarded : guardDefaultBranch h objects plan.base.body stage = .ok ()
  effective : buildEffectiveRefs h objects plan.base.body plan.updates stage = .ok plan.effective
  writes : plan.writes = stageWrites stage
  body : (emptyTarget stage = true ∧ plan.pack = none ∧
      marshalBody (emptyBody plan.base.body) = .ok plan.body) ∨
    (emptyTarget stage = false ∧ plan.pack = some (packEntry made) ∧
      tipsIn (git.contents made.packID) plan.effective = true ∧
      marshalBody (draftBody plan.base.body stage made patch) = .ok plan.body)

variable {updates : Updates} {git : Git} {made : Repack} {defaultBranch : RefName} {body : Body}

theorem checkRefnames_ok (passed : checkRefnames updates = .ok ()) :
    ∀ update ∈ updates, RefNames.validFullRefName update.1 = true := by
  induction updates with
  | nil => simp
  | cons first rest ih =>
    obtain ⟨⟨⟩, here, later⟩ := Results.bind_ok passed
    intro update member
    rcases List.mem_cons.mp member with rfl | inside
    · unfold checkRefname at here
      split at here
      · cases here
      · exact require_ok here
    · exact ih later update inside

theorem prepare_ok {h : Hashing} {objects : Objects} {base : Root} {bare : Bare} {patch : Patch}
    {plan : Plan} (built : prepare h git objects base bare updates made patch = .ok plan) :
    plan.base = base ∧ plan.updates = updates ∧
      ∃ stage, Prepared h git objects made patch plan stage := by
  obtain ⟨current, unmarshalled, built⟩ := bind_ok built
  obtain ⟨valid, rfl⟩ := unmarshalBody_ok (mapError_ok unmarshalled)
  obtain ⟨⟨⟩, named, built⟩ := bind_ok built
  obtain ⟨stage, staged, built⟩ := bind_ok built
  obtain ⟨⟨⟩, guarded, built⟩ := bind_ok built
  obtain ⟨effective, merged, built⟩ := bind_ok built
  obtain ⟨⟨⟩, -, built⟩ := bind_ok built
  have names := checkRefnames_ok named
  split at built
  · next empty =>
      obtain ⟨body, marshalled, built⟩ := bind_ok built
      cases built
      exact ⟨rfl, rfl, stage, valid, names, mapError_ok staged, guarded, merged, rfl,
        .inl ⟨empty, rfl, mapError_ok marshalled⟩⟩
  · next occupied =>
      obtain ⟨⟨⟩, packed, built⟩ := bind_ok built
      obtain ⟨body, marshalled, built⟩ := bind_ok built
      cases built
      exact ⟨rfl, rfl, stage, valid, names, mapError_ok staged, guarded, merged, rfl,
        .inr ⟨by simpa using occupied, rfl, require_ok packed, mapError_ok marshalled⟩⟩

/-- A cloned repository that passed `fsck`: git keeps its names well formed and free of
directory conflicts. -/
structure Source (git : Git) where
  refs : RefMap
  named : ∀ name ∈ refs, RefNames.validRefName name = true ∧ git.checkRefFormat name = true
  objectIDs : ∀ name oid, refs.lookup name = some oid → RefNames.validOID oid = true
  coexist : RefNames.Coexist refs

def sourceBody (refs : RefMap) (defaultBranch : RefName) (repack : Repack) : Body :=
  if refs = ∅ then
    ⟨defaultBranch, ∅, [], "", [], ⟨none, none, none⟩, []⟩
  else
    ⟨defaultBranch, refs, [], "", [packEntry repack],
      ⟨some ⟨objectMapKey repack.objectMapHash, repack.objectMapHash, 0⟩,
        some ⟨commitGraphKey repack.commitGraphHash, repack.commitGraphHash, 0⟩, none⟩, []⟩

def importBody (source : Source git) (defaultBranch : RefName) (repack : Repack) :
    Except Error Body := do
  require (RefNames.validFullRefName defaultBranch) (.invalidDefaultBranch defaultBranch)
  require (git.checkRefFormat defaultBranch) (.rejectedDefaultBranch defaultBranch)
  require (source.refs = ∅ || (source.refs.lookup defaultBranch).isSome)
    (.missingDefaultBranch defaultBranch)
  require (tipsIn (git.contents repack.packID) source.refs) .tipsNotInPack
  (marshalBody (sourceBody source.refs defaultBranch repack)).mapError .body

/-- What a successful import says of its source and default branch. -/
structure ImportChecks {git : Git} (source : Source git) (defaultBranch : RefName) (made : Repack)
    (body : Body) : Prop where
  full : RefNames.validFullRefName defaultBranch = true
  accepted : git.checkRefFormat defaultBranch = true
  present : source.refs = ∅ ∨ defaultBranch ∈ source.refs
  packed : tipsIn (git.contents made.packID) source.refs = true
  marshalled : marshalBody (sourceBody source.refs defaultBranch made) = .ok body

variable {source : Source git}

theorem importBody_ok (built : importBody source defaultBranch made = .ok body) :
    ImportChecks source defaultBranch made body := by
  obtain ⟨⟨⟩, full, built⟩ := bind_ok built
  obtain ⟨⟨⟩, accepted, built⟩ := bind_ok built
  obtain ⟨⟨⟩, present, built⟩ := bind_ok built
  obtain ⟨⟨⟩, packed, built⟩ := bind_ok built
  refine ⟨require_ok full, require_ok accepted, ?_, require_ok packed, mapError_ok built⟩
  simpa [Finmap.lookup_isSome] using require_ok present

theorem ImportChecks.refs (checks : ImportChecks source defaultBranch made body) :
    body.refs = decodeRefs (encodeRefs source.refs) := by
  rw [(marshalBody_ok checks.marshalled).2.2]
  unfold sourceBody
  split
  · next empty => rw [empty]
  · rfl

theorem ImportChecks.branch (checks : ImportChecks source defaultBranch made body) :
    body.defaultBranch = Utf8.coerce defaultBranch := by
  rw [(marshalBody_ok checks.marshalled).2.2]
  unfold sourceBody
  split <;> rfl

def createdBody (defaultBranch : RefName) : Body :=
  ⟨defaultBranch, ∅, [], "", [], ⟨none, none, none⟩, []⟩

end BucketVcs.Importer
