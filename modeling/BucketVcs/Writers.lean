import BucketVcs.Lib.Chain
import BucketVcs.Maintenance
import BucketVcs.ReceivePack
import BucketVcs.Repo.Tx

/-! All writers of one repository as one step machine: pushes, an import, and the
maintenance runs, each moving from storage operation to storage operation. -/

namespace BucketVcs.Writers

open Manifest RefStore Importer ReceivePack Maintenance List Results

abbrev ThreadId := Nat

def Reach (git : Git) : OID → OID → Prop := Relation.ReflTransGen fun a b => b ∈ git.links a

def ReachedFrom (git : Git) (refs : RefMap) (oid : OID) : Prop :=
  ∃ name tip, refs.lookup name = some tip ∧ Reach git tip oid

/-- `pack-objects --all` in a repository with these refs: the pack has exactly the objects
they reach, under a name git made. -/
structure PacksAll (git : Git) (refs : RefMap) (id : PackID) : Prop where
  exactly : ∀ oid, oid ∈ git.contents id ↔ ReachedFrom git refs oid
  hex : RefNames.validOID id = true

/-- A push request with the root it was checked against. -/
structure Push (git : Git) where
  request : ReceivePack.Request git.checkRefFormat
  first : Root
  statuses : Statuses

/-- A writer's commit: what its callback knows. -/
inductive Job (git : Git) where
  | push (p : Push git) (plan : Plan)
  | importRefs (body : Body)
  | repack (m0 : Body) (input : MergeInput)
  | compact (m0 : Body) (input : CompactInput)
  | bundle (fresh : BundleEntry)
  | backfill (m0 : Body)
  | reshard (start : Root)

variable {git : Git}

/-- `Import` only replaces what `Create` wrote. -/
def untouched (root : Root) : Bool :=
  root.manifestVersion = 1 && root.body.refs = ∅ && root.body.packs = [] && root.body.bundles = [] &&
    root.body.indexes.objectMap = none && root.body.indexes.commitGraph = none

def Job.callback (h : Hashing) (trailer : Key → Option String) (prev : Root) :
    Job git → Except Refusal Body
  | .push _ plan =>
    if prev.manifestVersion ≠ plan.base.manifestVersion then .error .staleManifest
    else .ok plan.body
  | .importRefs body => if untouched prev then .ok body else .error .concurrentMutation
  | .repack _ input => do
    let body ← checked (unmarshalBody prev.body)
    checked (marshalBody (buildMergedBody body input))
  | .compact m0 input => do
    let body ← checked (unmarshalBody prev.body)
    if body.packs.length ≠ m0.packs.length then
      .error (.packCountChanged m0.packs.length body.packs.length)
    else checked (marshalBody (buildCompactOnlyBody body input))
  | .bundle fresh => do
    let body ← checked (unmarshalBody prev.body)
    let merged ← mergeBundleEntry body fresh
    checked (marshalBody merged)
  | .backfill _ => do
    let body ← checked (unmarshalBody prev.body)
    let filled ← backfillBody trailer body
    checked (marshalBody filled)
  | .reshard start =>
    if prev.manifestVersion ≠ start.manifestVersion then .error .concurrentMutation
    else checked (marshalBody (reshardBody h start.body))

def Job.writes : Job git → List ShardWrite
  | .push _ plan => plan.writes
  | _ => []

/-- One replacement of the root. -/
structure Link (git : Git) where
  thread : ThreadId
  job : Job git
  prev : Root
  next : Root

/-- The bucket of the repository. `origin`, the first root, and `links`, the replacements
since then, newest first, are the history of the run; the writers read neither. -/
structure World (git : Git) where
  origin : Root
  root : Root
  packs : Key → Option PackID
  objects : Objects
  links : List (Link git)

def World.history (σ : World git) : List Root := Chain.values Link.next σ.origin σ.links

def World.replaceRoot (σ : World git) (link : Link git) : World git :=
  { σ with root := link.next, links := link :: σ.links }

/-- `PutIfAbsent` of a pack: a key that exists is left alone. -/
def World.putPack (σ : World git) (pack : PackEntry) : World git :=
  if (σ.packs pack.packKey).isSome then σ
  else { σ with packs := Function.update σ.packs pack.packKey (some pack.packID) }

def World.putShard (σ : World git) (write : ShardWrite) : World git :=
  { σ with objects := putShards [write] σ.objects }

/-- How a push request came to its report. -/
inductive Course where
  | turnedDown
  | commitFailed
  | reread (seen : Option Root)

inductive Phase (git : Git) where
  | idle
  | checked (p : Push git)
  | accepted (p : Push git)
  | prepared (p : Push git) (plan : Plan)
  | importing (pack : Option PackEntry) (body : Body)
  | snapshot (m0 : Body)
  | repacked (m0 : Body) (input : MergeInput)
  | resharding (start : Root) (pending : List ShardWrite)
  | ready (job : Job git)
  | publishing (job : Job git) (prev : Root) (body : Body) (pending : List ShardWrite)
  | landed (job : Job git) (body : Body)
  | reported (p : Push git) (course : Course) (report : Statuses)
  | finished

def failureReason : Refusal → String
  | .staleManifest => "stale-manifest"
  | _ => "internal-storage-error"

def Job.failed (reason : String) : Job git → Phase git
  | .push p _ => .reported p .commitFailed (settle (.ng reason) p.statuses)
  | .backfill m0 => .snapshot m0
  | _ => .finished

def Job.done (body : Body) : Job git → Phase git
  | .backfill _ => .snapshot body
  | _ => .finished

def verdict (first : Root) : Option Root → Status
  | none => .ok
  | some root =>
    if first.manifestVersion + 1 < root.manifestVersion then .ng "stale-manifest" else .ok

inductive Label where
  | work
  | cas (effective : Bool) (reply : Repo.Reply)
  deriving DecidableEq

def Job.afterReply (body : Body) (job : Job git) : Repo.Reply → Phase git
  | .applied => .landed job body
  | .mismatch => .ready job
  | .failed _ => job.failed "internal-storage-error"

/-- The input of a repack: the packs and deltas of the snapshot, and the pack made of its
refs. -/
structure RepackOf (git : Git) (m0 : Body) (input : MergeInput) : Prop where
  consolidated : input.p0Keys.Perm (m0.packs.map PackEntry.packKey)
  consumed : input.consumedHashes = snapshotDeltas m0
  packed : PacksAll git m0.refs input.newPack.packID
  keyed : input.newPack.packKey = canonicalPackKey input.newPack.packID

/-- One step of thread `t`. Every writer may also stop for good at any point. -/
inductive Move (h : Hashing) (t : ThreadId) :
    World git → Phase git → Label → World git → Phase git → Prop where
  | stop {σ phase} : Move h t σ phase .work σ .finished
  -- receive-pack: the first root read and the old value check
  | receive {σ statuses} (request : ReceivePack.Request git.checkRefFormat)
      (checked : gate request.isAtomic
        (precheckUpdates (RefStore.list h σ.objects σ.root.body) request.updates) = .inr statuses) :
      Move h t σ .idle .work σ (.checked ⟨request, σ.root, statuses⟩)
  | turnDown {σ report} (request : ReceivePack.Request git.checkRefFormat)
      (checked : gate request.isAtomic
        (precheckUpdates (RefStore.list h σ.objects σ.root.body) request.updates) = .inl report) :
      Move h t σ .idle .work σ (.reported ⟨request, σ.root, report⟩ .turnedDown report)
  | screen {σ p screened statuses} (screens : Screens p.statuses screened)
      (checked : gate p.request.isAtomic screened = .inr statuses) :
      Move h t σ (.checked p) .work σ (.accepted { p with statuses := statuses })
  | screenOut {σ p screened report} (screens : Screens p.statuses screened)
      (checked : gate p.request.isAtomic screened = .inl report) :
      Move h t σ (.checked p) .work σ (.reported { p with statuses := screened } .turnedDown report)
  | mirrorFails {σ p} :
      Move h t σ (.accepted p) .work σ
        (.reported p .turnedDown (settle (.ng "internal-mirror-error") p.statuses))
  -- BuildAndCommit: its own root read, then the pack
  | prepare {σ p bare made patch plan} (built : Importer.prepare h git σ.objects σ.root bare
        (refUpdates (accepted p.statuses)) made patch = .ok plan)
      (packed : plan.pack.isSome → PacksAll git bare.refs made.packID) :
      Move h t σ (.accepted p) .work σ (.prepared p plan)
  | prepareFails {σ p} :
      Move h t σ (.accepted p) .work σ
        (.reported p .commitFailed (settle (.ng "internal-storage-error") p.statuses))
  | upload {σ p plan pack} (packed : plan.pack = some pack) :
      Move h t σ (.prepared p plan) .work (σ.putPack pack) (.ready (.push p plan))
  | nothingToUpload {σ p plan} (packed : plan.pack = none) :
      Move h t σ (.prepared p plan) .work σ (.ready (.push p plan))
  | uploadFails {σ p plan} :
      Move h t σ (.prepared p plan) .work σ
        (.reported p .commitFailed (settle (.ng "internal-storage-error") p.statuses))
  -- Import
  | importSource {σ} {source : Source git} {defaultBranch made body}
      (built : importBody source defaultBranch made = .ok body)
      (packed : source.refs ≠ ∅ → PacksAll git source.refs made.packID) :
      Move h t σ .idle .work σ (.importing body.packs.head? body)
  | importUpload {σ pack body} :
      Move h t σ (.importing (some pack) body) .work (σ.putPack pack) (.importing none body)
  | importReady {σ body} :
      Move h t σ (.importing none body) .work σ (.ready (.importRefs body))
  -- maintenance
  | snapshot {σ m0} (read : unmarshalBody σ.root.body = .ok m0) :
      Move h t σ .idle .work σ (.snapshot m0)
  | backfill {σ m0} (needed : ∃ pack ∈ m0.packs, pack.packChecksum = "") :
      Move h t σ (.snapshot m0) .work σ (.ready (.backfill m0))
  | repack {σ m0 input} (refs : m0.refs ≠ ∅)
      (packs : m0.packs ≠ []) (made : RepackOf git m0 input) :
      Move h t σ (.snapshot m0) .work σ (.repacked m0 input)
  | uploadRepack {σ m0 input} :
      Move h t σ (.repacked m0 input) .work (σ.putPack input.newPack) (.ready (.repack m0 input))
  | compact {σ m0 input} (refs : m0.refs ≠ ∅)
      (packs : m0.packs ≠ []) (consumed : input.consumedHashes = snapshotDeltas m0) :
      Move h t σ (.snapshot m0) .work σ (.ready (.compact m0 input))
  | bundle {σ} (fresh : BundleEntry) :
      Move h t σ .idle .work σ (.ready (.bundle fresh))
  | startReshard {σ body} (read : unmarshalBody σ.root.body = .ok body)
      (inline : body.refShards = []) (refs : body.refs ≠ ∅) :
      Move h t σ .idle .work σ (.resharding σ.root (RefStore.reshard h body.refs).1)
  | putReshard {σ start write rest} :
      Move h t σ (.resharding start (write :: rest)) .work (σ.putShard write)
        (.resharding start rest)
  | reshardReady {σ start} :
      Move h t σ (.resharding start []) .work σ (.ready (.reshard start))
  -- Repo.Commit: root read and callback, then the conditional put
  | call {σ job trailer body} (built : job.callback h trailer σ.root = .ok body) :
      Move h t σ (.ready job) .work σ (.publishing job σ.root body job.writes)
  | callFails {σ job trailer cause} (refused : job.callback h trailer σ.root = .error cause) :
      Move h t σ (.ready job) .work σ (job.failed (failureReason cause))
  | giveUp {σ job} :
      Move h t σ (.ready job) .work σ (job.failed "internal-storage-error")
  | putShard {σ job prev body write rest} :
      Move h t σ (.publishing job prev body (write :: rest)) .work (σ.putShard write)
        (.publishing job prev body rest)
  | commitFails {σ job prev body pending} :
      Move h t σ (.publishing job prev body pending) .work σ (job.failed "internal-storage-error")
  | casTaken {σ job prev body version}
      (reply : Repo.Reply) (current : σ.root.version = prev.version)
      (unused : ∀ r ∈ σ.history, r.version ≠ version) :
      Move h t σ (.publishing job prev body []) (.cas true reply)
        (σ.replaceRoot ⟨t, job, σ.root, ⟨prev.manifestVersion + 1, version, body⟩⟩)
        (job.afterReply body reply)
  | casRefused {σ job prev body} (stale : σ.root.version ≠ prev.version) :
      Move h t σ (.publishing job prev body []) (.cas false .mismatch) σ (.ready job)
  -- the report of a push, and what a maintenance run does next
  | report {σ p plan body} (readable : Bool) :
      Move h t σ (.landed (.push p plan) body) .work σ
        (.reported p (.reread (if readable then some σ.root else none))
          (settle (verdict p.first (if readable then some σ.root else none)) p.statuses))
  | done {σ job body} (other : ∀ p plan, job ≠ .push p plan) :
      Move h t σ (.landed job body) .work σ (job.done body)

abbrev System (git : Git) := Interleave.System ThreadId (World git) (Phase git)

abbrev Step (h : Hashing) : System git → ThreadId × Label → System git → Prop :=
  Interleave.Step (Move h)

def created (defaultBranch : RefName) (version : Nat) : World git :=
  { origin := ⟨1, version, createdBody defaultBranch⟩
    root := ⟨1, version, createdBody defaultBranch⟩
    packs := fun _ => none
    objects := fun _ => none
    links := [] }

def start (defaultBranch : RefName) (version : Nat) : System git :=
  ⟨created defaultBranch version, fun _ => .idle⟩

/-! What the history of a repository looks like: every root is a well-formed body whose
shards and packs are in the bucket, and every replacement is the work of one job. -/

variable {h : Hashing} {σ σ' : World git}

/-- Writers add to the bucket and to the history; nothing is taken back. -/
structure Grows (σ σ' : World git) : Prop where
  objects : RefStore.Grows σ.objects σ'.objects
  packs : ∀ key id, σ.packs key = some id → σ'.packs key = some id
  origin : σ'.origin = σ.origin
  links : ∃ newer, σ'.links = newer ++ σ.links

structure PackStored (σ : World git) (pack : PackEntry) : Prop where
  keyed : pack.packKey = canonicalPackKey pack.packID
  held : σ.packs pack.packKey = some pack.packID
  hex : RefNames.validOID pack.packID = true

/-- A body a reader can use: valid, stable under JSON, with its shards and packs stored. -/
structure Sound (h : Hashing) (σ : World git) (body : Body) : Prop where
  valid : validateBody body = .ok ()
  names : ∀ name ∈ body.refs, Utf8.Valid name
  branch : Utf8.Valid body.defaultBranch
  resolves : Resolves h σ.objects body.refShards
  packs : ∀ pack ∈ body.packs, PackStored σ pack

/-- A push that passed the old value check against a root of the history. -/
structure Checked (h : Hashing) (σ : World git) (p : Push git) : Prop where
  first : p.first ∈ σ.history
  resolves : Resolves h σ.objects p.first.body.refShards
  commands : p.statuses.map Prod.fst = p.request.updates
  undecided : ∀ line ∈ p.statuses, line.2 ≠ .ok
  matched : ∃ refs, RefStore.list h σ.objects p.first.body = .ok refs ∧
    ∀ u ∈ accepted p.statuses, refs.lookup u.refname = wanted u.oldOID

/-- A plan that was built over a root of the history, from the bucket of that time. -/
structure Planned (h : Hashing) (σ : World git) (plan : Plan) : Prop where
  base : plan.base ∈ σ.history
  prepared : ∃ objects bareRefs made patch stage, RefStore.Grows objects σ.objects ∧
    Resolves h objects plan.base.body.refShards ∧ Prepared h git objects made patch plan stage ∧
    (plan.pack.isSome → PacksAll git bareRefs made.packID)

def Imported (git : Git) (body : Body) : Prop :=
  ∃ (source : Source git) (defaultBranch : RefName) (made : Repack),
    importBody source defaultBranch made = .ok body ∧
      (source.refs ≠ ∅ → PacksAll git source.refs made.packID)

def Snapshot (σ : World git) (m0 : Body) : Prop := ∃ root ∈ σ.history, root.body = m0

def JobOK (h : Hashing) (σ : World git) : Job git → Prop
  | .push p plan => Checked h σ p ∧ Planned h σ plan ∧
      plan.updates = refUpdates (accepted p.statuses) ∧ ∀ pack, plan.pack = some pack → PackStored σ pack
  | .importRefs body => Imported git body ∧ ∀ pack ∈ body.packs, PackStored σ pack
  | .repack m0 input => Snapshot σ m0 ∧ RepackOf git m0 input ∧ PackStored σ input.newPack
  | .compact m0 _ => Snapshot σ m0
  | .bundle _ => True
  | .backfill m0 => Snapshot σ m0
  | .reshard start => start ∈ σ.history ∧ start.body.refShards = [] ∧ start.body.refs ≠ ∅ ∧
      ∀ w ∈ (RefStore.reshard h start.body.refs).1, σ.objects w.key = some w.contents

/-- The root a job was prepared over, if its callback insists on it. -/
def Job.base : Job git → Option Root
  | .push _ plan => some plan.base
  | .reshard start => some start
  | _ => none

/-- A replacement of the root: the callback's body for exactly the root replaced. -/
structure Linked (h : Hashing) (σ : World git) (link : Link git) : Prop where
  job : JobOK h σ link.job
  built : ∃ trailer, link.job.callback h trailer link.prev = .ok link.next.body
  stored : ∀ w ∈ link.job.writes, σ.objects w.key = some w.contents
  raised : link.next.manifestVersion = link.prev.manifestVersion + 1
  based : ∀ root, link.job.base = some root → root = link.prev

/-- The invariant of the bucket. -/
structure Global (h : Hashing) (σ : World git) : Prop where
  addressed : Addressed h σ.objects
  chained : Chain.Chained Link.prev Link.next σ.origin σ.links σ.root
  linked : ∀ link ∈ σ.links, Linked h σ link
  distinct : ∀ left ∈ σ.history, ∀ right ∈ σ.history, left.version = right.version → left = right
  origin : Sound h σ σ.origin.body
  packs : ∀ key id, σ.packs key = some id → key = canonicalPackKey id

/-! Growth keeps what is known. -/

theorem Grows.refl (σ : World git) : Grows σ σ := ⟨.refl _, fun _ _ held => held, rfl, [], rfl⟩

variable {root : Root} {pack : PackEntry} {body : Body} {plan : Plan} {job : Job git}
  {link : Link git} {trailer : Key → Option String}

theorem Grows.history (grows : Grows σ σ') (member : root ∈ σ.history) : root ∈ σ'.history := by
  obtain ⟨newer, extended⟩ := grows.links
  simp only [World.history, Chain.mem_values, grows.origin, extended] at member ⊢
  rcases member with first | ⟨link, inside, same⟩
  · exact .inl first
  · exact .inr ⟨link, mem_append_right _ inside, same⟩

theorem PackStored.grows (stored : PackStored σ pack) (grows : Grows σ σ') :
    PackStored σ' pack := ⟨stored.keyed, grows.packs _ _ stored.held, stored.hex⟩

theorem Sound.grows (sound : Sound h σ body) (grows : Grows σ σ') : Sound h σ' body :=
  ⟨sound.valid, sound.names, sound.branch, sound.resolves.grows grows.objects,
    fun pack member => (sound.packs pack member).grows grows⟩

theorem Checked.grows {p : Push git} (checked : Checked h σ p) (grows : Grows σ σ') :
    Checked h σ' p := by
  obtain ⟨refs, listed, found⟩ := checked.matched
  exact ⟨grows.history checked.first, checked.resolves.grows grows.objects, checked.commands,
    checked.undecided, refs, list_grows grows.objects checked.resolves listed, found⟩

theorem Planned.grows (planned : Planned h σ plan) (grows : Grows σ σ') : Planned h σ' plan := by
  obtain ⟨objects, bareRefs, made, patch, stage, earlier, rest⟩ := planned.prepared
  exact ⟨grows.history planned.base, objects, bareRefs, made, patch, stage,
    earlier.trans grows.objects, rest⟩

theorem Snapshot.grows {m0 : Body} (snapshot : Snapshot σ m0) (grows : Grows σ σ') :
    Snapshot σ' m0 := by
  obtain ⟨root, member, same⟩ := snapshot
  exact ⟨root, grows.history member, same⟩

theorem JobOK.grows (ok : JobOK h σ job) (grows : Grows σ σ') : JobOK h σ' job := by
  cases job with
  | push p plan =>
    obtain ⟨checked, planned, updates, stored⟩ := ok
    exact ⟨checked.grows grows, planned.grows grows, updates,
      fun pack packed => (stored pack packed).grows grows⟩
  | importRefs body => exact ⟨ok.1, fun pack member => (ok.2 pack member).grows grows⟩
  | repack m0 input => exact ⟨ok.1.grows grows, ok.2.1, ok.2.2.grows grows⟩
  | compact m0 input | backfill m0 => exact .grows ok grows
  | bundle fresh => exact ok
  | reshard start =>
    obtain ⟨member, inline, refs, stored⟩ := ok
    exact ⟨grows.history member, inline, refs,
      fun write inside => grows.objects _ _ (stored write inside)⟩

theorem Linked.grows (linked : Linked h σ link) (grows : Grows σ σ') : Linked h σ' link :=
  ⟨linked.job.grows grows, linked.built,
    fun write member => grows.objects _ _ (linked.stored write member), linked.raised, linked.based⟩

/-! Every replacement keeps the bodies sound. -/

theorem checked_ok {α : Type} {result : Except BodyError α} {value : α}
    (done : checked result = .ok value) : result = .ok value := by
  cases result with
  | error cause => cases done
  | ok held => exact congrArg Except.ok (Except.ok.inj done)

/-- The body each callback returns, over the root it was handed. -/
def Job.Built (h : Hashing) (trailer : Key → Option String) (prev : Root) (body : Body) :
    Job git → Prop
  | .push _ plan => prev.manifestVersion = plan.base.manifestVersion ∧ body = plan.body
  | .importRefs imported => untouched prev = true ∧ body = imported
  | .repack _ input => marshalBody (buildMergedBody prev.body input) = .ok body
  | .compact m0 input => prev.body.packs.length = m0.packs.length ∧
      marshalBody (buildCompactOnlyBody prev.body input) = .ok body
  | .bundle fresh => ∃ bundles, bundles = prev.body.bundles.filter
      (fun entry => entry.kind ≠ fullDefault) ++ [fresh] ∧
      marshalBody { prev.body with bundles := bundles } = .ok body
  | .backfill _ =>
    marshalBody { prev.body with packs := prev.body.packs.map (backfillPack trailer) } = .ok body
  | .reshard start => prev.manifestVersion = start.manifestVersion ∧
      marshalBody (reshardBody h start.body) = .ok body

theorem callback_ok {prev : Root} (returned : job.callback h trailer prev = .ok body) :
    job.Built h trailer prev body := by
  cases job with
  | push p plan =>
    simp only [Job.callback] at returned
    split at returned
    · cases returned
    · next version => exact ⟨not_not.mp version, (Except.ok.inj returned).symm⟩
  | importRefs imported =>
    simp only [Job.callback] at returned
    split at returned
    · next free => exact ⟨free, (Except.ok.inj returned).symm⟩
    · cases returned
  | repack m0 input =>
    obtain ⟨current, read, merged⟩ := bind_ok returned
    obtain ⟨-, rfl⟩ := unmarshalBody_ok (checked_ok read)
    exact checked_ok merged
  | compact m0 input =>
    obtain ⟨current, read, merged⟩ := bind_ok returned
    obtain ⟨-, rfl⟩ := unmarshalBody_ok (checked_ok read)
    split at merged
    · cases merged
    · next same => exact ⟨not_not.mp same, checked_ok merged⟩
  | bundle fresh =>
    obtain ⟨current, read, rest⟩ := bind_ok returned
    obtain ⟨-, rfl⟩ := unmarshalBody_ok (checked_ok read)
    obtain ⟨draft, merged, marshalled⟩ := bind_ok rest
    unfold mergeBundleEntry at merged
    split at merged
    · cases merged
    · cases merged
      exact ⟨_, rfl, checked_ok marshalled⟩
  | backfill m0 =>
    obtain ⟨current, read, rest⟩ := bind_ok returned
    obtain ⟨-, rfl⟩ := unmarshalBody_ok (checked_ok read)
    obtain ⟨draft, filled, marshalled⟩ := bind_ok rest
    unfold backfillBody at filled
    split at filled
    · cases filled
      exact checked_ok marshalled
    · cases filled
  | reshard start =>
    simp only [Job.callback] at returned
    split at returned
    · cases returned
    · next version => exact ⟨not_not.mp version, checked_ok returned⟩

theorem sound_of_marshal {draft : Body} (marshalled : marshalBody draft = .ok body)
    (resolves : Resolves h σ.objects draft.refShards)
    (packs : ∀ pack ∈ draft.packs, PackStored σ pack) : Sound h σ body := by
  obtain ⟨-, valid, rfl⟩ := marshalBody_ok marshalled
  exact ⟨valid, fun name member => valid_decodeRefs member, Utf8.valid_coerce _, resolves, packs⟩

theorem resolves_nil (objects : Objects) : Resolves h objects [] := by simp [Resolves]

theorem Planned.sound (planned : Planned h σ plan)
    (stored : ∀ w ∈ plan.writes, σ.objects w.key = some w.contents)
    (uploaded : ∀ pack, plan.pack = some pack → PackStored σ pack) : Sound h σ plan.body := by
  obtain ⟨objects, bareRefs, made, patch, stage, grows, resolves, prepared, -⟩ := planned.prepared
  rcases prepared.body with ⟨-, -, marshalled⟩ | ⟨-, packed, -, marshalled⟩
  · exact sound_of_marshal marshalled (resolves_nil _) (by simp [emptyBody])
  · apply sound_of_marshal marshalled
    · rcases stage_ok prepared.staged with ⟨-, rfl⟩ | ⟨-, writes, next, rfl, sharded⟩
      · exact resolves_nil _
      · apply resolves.staged (stageSharded_staged resolves sharded) grows
        rw [← show plan.writes = writes from prepared.writes]
        exact stored
    · intro pack member
      cases mem_singleton.mp member
      exact uploaded _ packed

theorem Imported.sound (imported : Imported git body)
    (uploaded : ∀ pack ∈ body.packs, PackStored σ pack) : Sound h σ body := by
  obtain ⟨source, defaultBranch, made, built, -⟩ := imported
  have marshalled := (importBody_ok built).marshalled
  have same := (marshalBody_ok marshalled).2.2
  apply sound_of_marshal marshalled
  · unfold sourceBody
    split <;> exact resolves_nil _
  · intro pack member
    apply uploaded
    rw [same]
    exact member

theorem backfillPack_stored (stored : PackStored σ pack) :
    PackStored σ (backfillPack trailer pack) := by
  unfold backfillPack
  split
  · exact stored
  · split
    · exact ⟨stored.keyed, stored.held, stored.hex⟩
    · exact stored

theorem Linked.body_built (linked : Linked h σ link) :
    ∃ trailer, link.job.Built h trailer link.prev link.next.body := by
  obtain ⟨trailer, returned⟩ := linked.built
  exact ⟨trailer, callback_ok returned⟩

theorem Linked.sound (linked : Linked h σ link) (sound : Sound h σ link.prev.body) :
    Sound h σ link.next.body := by
  obtain ⟨trailer, built⟩ := linked.body_built
  have ok := linked.job
  have based := linked.based
  have stored := linked.stored
  generalize link.job = job at built ok based stored
  cases job with
  | push p plan =>
    rw [built.2]
    exact ok.2.1.sound stored ok.2.2.2
  | importRefs imported =>
    rw [built.2]
    exact ok.1.sound ok.2
  | repack m0 input =>
    apply sound_of_marshal built (resolves_nil _)
    intro pack member
    rcases mem_cons.mp member with rfl | kept
    · exact ok.2.2
    · exact sound.packs pack (mem_of_mem_filter kept)
  | compact m0 input => exact sound_of_marshal built.2 (resolves_nil _) sound.packs
  | bundle fresh =>
    obtain ⟨bundles, -, marshalled⟩ := built
    exact sound_of_marshal marshalled sound.resolves sound.packs
  | backfill m0 =>
    apply sound_of_marshal built sound.resolves
    intro pack member
    obtain ⟨old, inside, rfl⟩ := mem_map.mp member
    exact backfillPack_stored (sound.packs old inside)
  | reshard start =>
    obtain rfl := based start rfl
    obtain ⟨-, -, -, written⟩ := ok
    exact sound_of_marshal built.2 (reshard_lays sound.names written).resolves sound.packs

theorem Global.sound (global : Global h σ) (member : root ∈ σ.history) : Sound h σ root.body :=
  global.chained.invariant (P := fun root => Sound h σ root.body) global.origin
    (fun link inside => (global.linked link inside).sound) root member

theorem Global.raised (global : Global h σ) :
    ∀ link ∈ σ.links, link.next.manifestVersion = link.prev.manifestVersion + 1 :=
  fun link member => (global.linked link member).raised

theorem Global.version_injective (global : Global h σ) {left right : Root}
    (leftMember : left ∈ σ.history) (rightMember : right ∈ σ.history)
    (same : left.manifestVersion = right.manifestVersion) : left = right :=
  global.chained.rank_injective global.raised leftMember rightMember same

end BucketVcs.Writers
