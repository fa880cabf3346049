import BucketVcs.Lib.Stores
import BucketVcs.Mirror.Safety

/-! The upload-pack and receive-pack engines as programs over several stores: the store of a
request, which the resolver picks for its tenant, and the store the mirror manager was built
with. -/

namespace BucketVcs.Engines

open Manifest RefStore Importer Exporter ReceivePack UploadPack Stores

abbrev TenantID := String
abbrev RepoID := String

/-- What a store holds of one repository. The root is none if it cannot be parsed or has an
unsupported schema. -/
structure Stored where
  root : Option Root
  packs : Key → Option PackID
  objects : Objects

section Names

def letterOrDigit (c : Char) : Bool :=
  ('A' ≤ c ∧ c ≤ 'Z') ∨ ('a' ≤ c ∧ c ≤ 'z') ∨ ('0' ≤ c ∧ c ≤ '9')

def hasDots (name : List Char) : Bool := name.tails.any fun rest => ['.', '.'].isPrefixOf rest

def validID (id : String) : Bool :=
  (1 ≤ id.toList.length && id.toList.length ≤ 128) &&
    id.toList.all (fun c => letterOrDigit c || c = '_' || c = '-') && id ≠ "." && id ≠ ".." &&
    !hasDots id.toList

def maxNameLen : Nat := 128

def validName (name : String) : Bool :=
  !(name.toList.length = 0 || maxNameLen < name.toList.length) &&
    !(name = "." || name = ".." || hasDots name.toList) &&
    name.toList.all fun c => letterOrDigit c || c = '.' || c = '_' || c = '-'

theorem validName_of_validID {id : String} (valid : validID id = true) : validName id = true := by
  simp only [validID, validName, Bool.and_eq_true, decide_eq_true_eq, Bool.not_eq_true',
    List.all_eq_true, Bool.or_eq_true] at valid ⊢
  obtain ⟨⟨⟨⟨⟨occupied, short⟩, chars⟩, dot⟩, dots⟩, free⟩ := valid
  refine ⟨⟨?_, ?_⟩, ?_⟩
  · rw [Bool.or_eq_false_iff, decide_eq_false_iff_not, decide_eq_false_iff_not, maxNameLen]
    omega
  · simp [dot, dots, free]
  · intro c member
    rcases chars c member with (letter | underscore) | dash
    · exact .inl (.inl (.inl letter))
    · exact .inl (.inr underscore)
    · exact .inr dash

end Names

variable {S : Type}

abbrev Program (S R : Type) := Prog S (TenantID × RepoID) Stored R

inductive OpenError where
  | invalidTenantID
  | invalidRepoID
  | repoNotFound
  | unreadable
  deriving DecidableEq, Repr

def readRoot (store : S) (tenant : TenantID) (repo : RepoID) :
    Program S (Except OpenError (Stored × Root)) := do
  match ← read store (tenant, repo) with
  | none => return .error .repoNotFound
  | some stored =>
    match stored.root with
    | none => return .error .unreadable
    | some root => return .ok (stored, root)

def openRepo (store : S) (tenant : TenantID) (repo : RepoID) :
    Program S (Except OpenError (Stored × Root)) :=
  if !validID tenant then return .error .invalidTenantID
  else if !validID repo then return .error .invalidRepoID
  else readRoot store tenant repo

def openView (store : S) (tenant : TenantID) (repo : RepoID) :
    Program S (Except OpenError (Stored × Root)) := do
  match ← openRepo store tenant repo with
  | .error cause => return .error cause
  | .ok _ => readRoot store tenant repo

section Manager

/-- A mirror on disk. After a failed rebuild there is no sentinel, and what the bare holds
then is never looked at. -/
structure Mirror where
  bare : Repository
  sentinel : Option (Nat × Nat)

/-- The mirrors of a manager. -/
abbrev Mirrors := TenantID × RepoID → Option Mirror

inductive MirrorError where
  | invalidTenant
  | invalidRepo
  | repoOpen (cause : OpenError)
  | exportOpen (cause : OpenError)
  | exported (cause : Exporter.Error)
  deriving DecidableEq, Repr

variable {git : Git} (h : Hashing) (exporter : Exporter.Tools git) (store : S)

/-- `syncTo` past its checks: the bare is wiped and exported again. -/
def rebuild (mirrors : Mirrors) (tenant : TenantID) (repo : RepoID) (view : Root) :
    Program S (Mirrors × Except MirrorError Repository) := do
  let wiped := Function.update mirrors (tenant, repo) (some ⟨initBare exporter, none⟩)
  match ← openView store tenant repo with
  | .error cause => return (wiped, .error (.exportOpen cause))
  | .ok (stored, root) =>
    match exportRepository h exporter stored.packs stored.objects root false with
    | .error cause => return (wiped, .error (.exported cause))
    | .ok result =>
      let made := ⟨result.repository, some (Mirror.sentinelOf view)⟩
      return (Function.update mirrors (tenant, repo) (some made), .ok result.repository)

def syncToHeld (mirrors : Mirrors) (tenant : TenantID) (repo : RepoID) (view : Root) :
    Program S (Mirrors × Except MirrorError Repository) :=
  match mirrors (tenant, repo) with
  | none => rebuild h exporter store mirrors tenant repo view
  | some mirror =>
    if mirror.sentinel = some (Mirror.sentinelOf view) then return (mirrors, .ok mirror.bare)
    else rebuild h exporter store mirrors tenant repo view

/-- `SyncToCurrent` of a mirror the manager knows; the root is read again under the write
lock. -/
def syncToCurrent (mirrors : Mirrors) (mirror : Mirror) (tenant : TenantID) (repo : RepoID) :
    Program S (Mirrors × Except MirrorError Repository) := do
  match ← openView store tenant repo with
  | .error cause => return (mirrors, .error (.repoOpen cause))
  | .ok (_, view) =>
    if mirror.sentinel = some (Mirror.sentinelOf view) then return (mirrors, .ok mirror.bare)
    else
      match ← openView store tenant repo with
      | .error cause => return (mirrors, .error (.repoOpen cause))
      | .ok (_, view) => syncToHeld h exporter store mirrors tenant repo view

def managerOpen (mirrors : Mirrors) (tenant : TenantID) (repo : RepoID) :
    Program S (Mirrors × Except MirrorError Repository) :=
  if !validName tenant then return (mirrors, .error .invalidTenant)
  else if !validName repo then return (mirrors, .error .invalidRepo)
  else
    match mirrors (tenant, repo) with
    | some mirror => syncToCurrent h exporter store mirrors mirror tenant repo
    | none => do
      match ← openView store tenant repo with
      | .error cause => return (mirrors, .error (.repoOpen cause))
      | .ok (_, view) => syncToHeld h exporter store mirrors tenant repo view

end Manager

inductive Answer where
  | v2Required
  | eof
  | badRequest (why : String)
  | repoNotFound
  | invalidName
  | unreadable
  | body (cause : BodyError)
  | mirror (cause : MirrorError)
  | refs (listing : Except RefStore.Error RefMap)
  | bundles (advertised : List BundleEntry)
  | fetch (answer : Except UploadPack.Error Response)
  | flushOnlyProbe
  | report (unpack : String) (statuses : Statuses)
  deriving DecidableEq

def Answer.ofOpenError : OpenError → Answer
  | .invalidTenantID => .invalidName
  | .invalidRepoID => .invalidName
  | .repoNotFound => .repoNotFound
  | .unreadable => .unreadable

/-- What the engines use beside the stores. The reachability index of a repository may
answer a round of a fetch (`lazyPath`) and picks the bundles; git indexes a pack, checks
connectivity, writes refs and repacks; policies and hooks turn commands down. -/
structure Tools (git : Git) where
  hashing : Hashing
  exporter : Exporter.Tools git
  uploader : UploadPack.Tools git
  lazyPath : Stored → Body → FetchRequest → Option Response
  bundleURI : Stored → Body → List BundleEntry
  indexPackStrict : Repository → Finset OID → Option Repository
  screen : Repository → Statuses → Statuses
  applyRefUpdate : Repository → UpdateCommand → Option Repository
  repack : Repository → Repack
  patch : Stored → Patch
  version : Stored → Nat

section Services

variable {git : Git} (tools : Tools git) (store : S) (tenant : TenantID) (repo : RepoID)

section Upload

inductive Command where
  | lsRefs
  /-- `none` if the arguments do not parse. -/
  | fetch (args : Option FetchRequest)
  | bundleURI
  | other (line : String)

/-- What the pkt-lines of a request come to. -/
inductive UploadInput where
  | undrained
  | empty
  | noCommand
  | command (c : Command)

structure UploadRequest where
  protocolVersion : Nat
  input : UploadInput

/-- `serveFetch` up to the mirror: the answer it ends with there, or the arguments it goes
on with. -/
def fetchFront (stored : Stored) (body : Body) : Option FetchRequest → Answer ⊕ FetchRequest
  | none => .inl (.badRequest "fetch")
  | some args =>
    if maxWants < args.wants.length then .inl (.badRequest "fetch: too many wants")
    else if maxHaves < args.haves.length then .inl (.badRequest "fetch: too many haves")
    else
      match tools.lazyPath stored body args with
      | some response => .inl (.fetch (.ok response))
      | none => .inr args

def dispatch (stored : Stored) (body : Body) : Command → Answer ⊕ FetchRequest
  | .lsRefs => .inl (.refs (RefStore.list tools.hashing stored.objects body))
  | .fetch args => fetchFront tools stored body args
  | .bundleURI => .inl (.bundles (tools.bundleURI stored body))
  | .other line => .inl (.badRequest ("unsupported command " ++ line))

def uploadFront (request : UploadRequest) : Program S (Answer ⊕ FetchRequest) :=
  if request.protocolVersion ≠ 2 then return .inl .v2Required
  else
    match request.input with
    | .undrained => return .inl (.badRequest "bad request body")
    | .empty => return .inl .eof
    | .noCommand => return .inl (.badRequest "missing command= pkt-line")
    | .command c => do
      match ← openView store tenant repo with
      | .error cause => return .inl (.ofOpenError cause)
      | .ok (stored, root) =>
        match unmarshalBody root.body with
        | .error cause => return .inl (.body cause)
        | .ok body => return dispatch tools stored body c

/-- `serveFetch` from the mirror on; `operator` is the store of the manager. -/
def uploadBehind (operator : S) (mirrors : Mirrors) (args : FetchRequest) :
    Program S (Mirrors × Answer) := do
  let (mirrors, opened) ← managerOpen tools.hashing tools.exporter operator mirrors tenant repo
  match opened with
  | .error cause => return (mirrors, .mirror cause)
  | .ok bare =>
    -- for a client that has not opted into packfile-uris
    return (mirrors, .fetch (serveFetch tools.uploader bare (.ok none) args))

def uploadService (operator : S) (mirrors : Mirrors) (request : UploadRequest) :
    Program S (Mirrors × Answer) := do
  match ← uploadFront tools store tenant repo request with
  | .inl answer => return (mirrors, answer)
  | .inr args => uploadBehind tools tenant repo operator mirrors args

end Upload

section Receive

/-- What the body of a push comes to, with the objects of its pack. -/
inductive ReceiveInput (git : Git) where
  | flushOnly
  | malformed (why : String)
  | commands (request : ReceivePack.Request git.checkRefFormat) (pack : Option (Finset OID))

def applyRefs : Repository → List UpdateCommand → Except Repository Repository
  | bare, [] => .ok bare
  | bare, u :: rest =>
    match tools.applyRefUpdate bare u with
    | none => .error bare
    | some bare => applyRefs bare rest

def committed (stored : Stored) (plan : Plan) : Stored where
  root := some ⟨plan.base.manifestVersion + 1, tools.version stored, plan.body⟩
  packs := match plan.pack with
    | none => stored.packs
    | some pack =>
      if (stored.packs pack.packKey).isSome then stored.packs
      else Function.update stored.packs pack.packKey (some pack.packID)
  objects := putShards plan.writes stored.objects

def buildAndCommit (bare : Repository) (updates : Updates) : Program S Bool := do
  match ← openView store tenant repo with
  | .error _ => return false
  | .ok (stored, root) =>
    match prepare tools.hashing git stored.objects root ⟨bare.refs, bare.objects⟩ updates
        (tools.repack bare) (tools.patch stored) with
    | .error _ => return false
    | .ok plan =>
      write store (tenant, repo) (committed tools stored plan)
      return true

/-- Steps 7 and 8 of `completeReceivePack`: the pack goes into the bare, then the new ids
must be connected, and without a pack be there already. The reason is what the report
says of the unpack. -/
def ingest (bare : Repository) (pack : Option (Finset OID)) (statuses : Statuses) :
    Repository × Option String :=
  match pack.elim (some bare) (tools.indexPackStrict bare) with
  | none => (bare, some "invalid-pack")
  | some filled =>
    match ((accepted statuses).map UpdateCommand.newOID).filter (· ≠ nullOID) with
    | [] => (filled, none)
    | oid :: more =>
      match tools.uploader.revListNotAll filled (oid :: more) with
      | none => (filled, some "missing-connectivity")
      | some out =>
        if pack.isNone && out ≠ [] then
          (filled, some "missing-connectivity: pack required for new objects")
        else (filled, none)

/-- Steps 9b to 15: refs into the bare, the commit, and a second look at the root. The flag
says that the mirror is marked stale. -/
def publish (preCommitVersion : Nat) (bare : Repository) (statuses : Statuses) :
    Program S (Repository × Bool × Answer) :=
  match applyRefs tools bare (accepted statuses) with
  | .error bare =>
    return (bare, true, .report "ok" (settle (.ng "internal-mirror-error") statuses))
  | .ok bare => do
    if ← buildAndCommit tools store tenant repo bare (refUpdates (accepted statuses)) then
      match ← readRoot store tenant repo with
      | .error _ => return (bare, true, .report "ok" (settle .ok statuses))
      | .ok (_, after) =>
        if preCommitVersion + 1 < after.manifestVersion then
          return (bare, true, .report "ok" (settle (.ng "stale-manifest") statuses))
        else return (bare, true, .report "ok" (settle .ok statuses))
    else return (bare, true, .report "ok" (settle (.ng "internal-storage-error") statuses))

def completeReceivePack (bare : Repository) (request : ReceivePack.Request git.checkRefFormat)
    (pack : Option (Finset OID)) : Program S (Repository × Bool × Answer) := do
  match ← openView store tenant repo with
  | .error _ => return (bare, false, .report "internal-error" [])
  | .ok (stored, root) =>
    match unmarshalBody root.body with
    | .error _ => return (bare, false, .report "internal-error" [])
    | .ok body =>
      match gate request.isAtomic (precheckUpdates
          (RefStore.list tools.hashing stored.objects body) request.updates) with
      | .inl report => return (bare, false, .report "ok" report)
      | .inr statuses =>
        match ingest tools bare pack statuses with
        | (filled, some unpack) => return (filled, false, .report unpack [])
        | (filled, none) =>
          match gate request.isAtomic (tools.screen filled statuses) with
          | .inl report => return (filled, false, .report "ok" report)
          | .inr statuses =>
            publish tools store tenant repo root.manifestVersion filled statuses

def receiveBehind (operator : S) (mirrors : Mirrors) (input : ReceiveInput git) :
    Program S (Mirrors × Answer) := do
  let (mirrors, opened) ← managerOpen tools.hashing tools.exporter operator mirrors tenant repo
  match opened with
  | .error cause => return (mirrors, .mirror cause)
  | .ok bare =>
    match input with
    | .flushOnly => return (mirrors, .flushOnlyProbe)
    | .malformed why => return (mirrors, .badRequest why)
    | .commands request pack =>
      let (bare, stale, answer) ← completeReceivePack tools store tenant repo bare request pack
      let sentinel := if stale then none else (mirrors (tenant, repo)).bind Mirror.sentinel
      return (Function.update mirrors (tenant, repo) (some ⟨bare, sentinel⟩), answer)

def receiveService (operator : S) (mirrors : Mirrors) (input : ReceiveInput git) :
    Program S (Mirrors × Answer) := do
  match ← openRepo store tenant repo with
  | .error cause => return (mirrors, .ofOpenError cause)
  | .ok _ => receiveBehind tools store tenant repo operator mirrors input

end Receive

inductive Request (git : Git) where
  | upload (request : UploadRequest)
  | receive (input : ReceiveInput git)

/-- `StoreResolver.Resolve`, of a tenant whose binding can be opened if there is one. -/
def resolve (bindings : TenantID → Option S) (operator : S) (tenant : TenantID) : S :=
  (bindings tenant).getD operator

/-- A request as the HTTP and the SSH adapter hand it to its engine: the store is the
tenant's, the mirrors are those of the process, built over the operator's store. -/
def serve (bindings : TenantID → Option S) (operator : S) (mirrors : Mirrors) :
    Request git → Program S (Mirrors × Answer)
  | .upload request =>
    uploadService tools (resolve bindings operator tenant) tenant repo operator mirrors request
  | .receive input =>
    receiveService tools (resolve bindings operator tenant) tenant repo operator mirrors input

end Services

variable {git : Git} {tools : Tools git} {store operator : S} {tenant : TenantID} {repo : RepoID}

/-! What a request does before it opens the mirror. -/

def rootOf : Option Stored → Except OpenError (Stored × Root)
  | none => .error .repoNotFound
  | some stored => stored.root.elim (.error .unreadable) fun root => .ok (stored, root)

def viewOf (tenant : TenantID) (repo : RepoID) (found : Option Stored) :
    Except OpenError (Stored × Root) :=
  if !validID tenant then .error .invalidTenantID
  else if !validID repo then .error .invalidRepoID
  else rootOf found

variable {found : Option Stored} {stored : Stored} {body : Body} {args : FetchRequest}
  {request : Request git}

theorem viewOf_ok {view : Stored × Root} (opened : viewOf tenant repo found = .ok view) :
    validID tenant = true ∧ validID repo = true ∧ rootOf found = .ok view := by
  unfold viewOf at opened
  split at opened
  · cases opened
  · split at opened
    · cases opened
    · simp_all

theorem openView_begins (tenantID : validID tenant = true) (repoID : validID repo = true) :
    (openView store tenant repo).Begins store := by
  have opens : (openRepo store tenant repo).Begins store := by
    unfold openRepo
    rw [if_neg (by simp [tenantID]), if_neg (by simp [repoID])]
    rfl
  exact opens.bind _

theorem managerOpen_begins {h : Hashing} {exporter : Exporter.Tools git} (mirrors : Mirrors)
    (tenantID : validID tenant = true) (repoID : validID repo = true) :
    (managerOpen h exporter operator mirrors tenant repo).Begins operator := by
  unfold managerOpen
  rw [if_neg (by simp [validName_of_validID tenantID]),
    if_neg (by simp [validName_of_validID repoID])]
  split
  · exact (openView_begins tenantID repoID).bind _
  · exact (openView_begins tenantID repoID).bind _

variable [DecidableEq S] {stores : Contents S (TenantID × RepoID) Stored}

theorem readRoot_reads : Reads store stores (readRoot store tenant repo)
    (rootOf (stores store (tenant, repo))) := by
  refine (Reads.read store stores (tenant, repo)).bind ?_
  cases stores store (tenant, repo) with
  | none => exact Reads.pure ..
  | some stored =>
    obtain ⟨root, packs, objects⟩ := stored
    cases root <;> exact Reads.pure ..

theorem openRepo_reads : Reads store stores (openRepo store tenant repo)
    (viewOf tenant repo (stores store (tenant, repo))) := by
  unfold openRepo viewOf
  split
  · exact .pure ..
  · split
    · exact .pure ..
    · exact readRoot_reads

theorem openView_reads : Reads store stores (openView store tenant repo)
    (viewOf tenant repo (stores store (tenant, repo))) := by
  refine openRepo_reads.bind ?_
  cases opened : viewOf tenant repo (stores store (tenant, repo)) with
  | error cause => exact .pure ..
  | ok view =>
    have again : Reads store stores (readRoot store tenant repo)
        (rootOf (stores store (tenant, repo))) := readRoot_reads
    rw [(viewOf_ok opened).2.2] at again
    exact again

def frontOf (tools : Tools git) (tenant : TenantID) (repo : RepoID) (request : UploadRequest)
    (found : Option Stored) : Answer ⊕ FetchRequest :=
  if request.protocolVersion ≠ 2 then .inl .v2Required
  else
    match request.input with
    | .undrained => .inl (.badRequest "bad request body")
    | .empty => .inl .eof
    | .noCommand => .inl (.badRequest "missing command= pkt-line")
    | .command c =>
      match viewOf tenant repo found with
      | .error cause => .inl (.ofOpenError cause)
      | .ok (stored, root) =>
        match unmarshalBody root.body with
        | .error cause => .inl (.body cause)
        | .ok body => dispatch tools stored body c

theorem uploadFront_reads (request : UploadRequest) :
    Reads store stores (uploadFront tools store tenant repo request)
      (frontOf tools tenant repo request (stores store (tenant, repo))) := by
  unfold uploadFront frontOf
  split
  · exact .pure ..
  cases request.input with
  | undrained | empty | noCommand => exact .pure ..
  | command c =>
    refine openView_reads.bind ?_
    cases viewOf tenant repo (stores store (tenant, repo)) with
    | error cause => exact .pure ..
    | ok view =>
      dsimp only
      cases unmarshalBody view.2.body <;> exact .pure ..

/-- The request gets as far as `Manager.Open`, given what the tenant's store holds of its
repository. -/
def ReachesMirror (tools : Tools git) (tenant : TenantID) (repo : RepoID) (found : Option Stored) :
    Request git → Prop
  | .upload request => request.protocolVersion = 2 ∧ ∃ args stored root body,
      request.input = .command (.fetch (some args)) ∧ viewOf tenant repo found = .ok (stored, root) ∧
      unmarshalBody root.body = .ok body ∧ args.wants.length ≤ maxWants ∧
      args.haves.length ≤ maxHaves ∧ tools.lazyPath stored body args = none
  | .receive _ => ∃ view, viewOf tenant repo found = .ok view

theorem fetchFront_inr_iff {parsed : Option FetchRequest} :
    fetchFront tools stored body parsed = .inr args ↔
      parsed = some args ∧ args.wants.length ≤ maxWants ∧ args.haves.length ≤ maxHaves ∧
        tools.lazyPath stored body args = none := by
  constructor
  · intro went
    unfold fetchFront at went
    split at went
    · cases went
    split at went
    · cases went
    next few =>
      split at went
      · cases went
      next short =>
        split at went
        · cases went
        · next undecided =>
            cases went
            exact ⟨rfl, not_lt.mp few, not_lt.mp short, undecided⟩
  · rintro ⟨rfl, few, short, undecided⟩
    simp [fetchFront, not_lt.mpr few, not_lt.mpr short, undecided]

theorem dispatch_inr_iff {c : Command} :
    dispatch tools stored body c = .inr args ↔ c = .fetch (some args) ∧
      args.wants.length ≤ maxWants ∧ args.haves.length ≤ maxHaves ∧
        tools.lazyPath stored body args = none := by
  cases c with
  | fetch parsed => rw [dispatch, fetchFront_inr_iff, Command.fetch.injEq]
  | _ => simp [dispatch]

theorem frontOf_inr_iff {request : UploadRequest} :
    (∃ args, frontOf tools tenant repo request found = .inr args) ↔
      ReachesMirror tools tenant repo found (.upload request) := by
  constructor
  · rintro ⟨args, went⟩
    unfold frontOf at went
    split at went
    · cases went
    next version =>
      split at went
      · cases went
      · cases went
      · cases went
      next c input =>
        split at went
        · cases went
        next stored root opened =>
          split at went
          · cases went
          next body read =>
            obtain ⟨rfl, limits⟩ := dispatch_inr_iff.mp went
            exact ⟨not_not.mp version, args, stored, root, body, input, opened, read, limits⟩
  · rintro ⟨version, args, stored, root, body, input, opened, read, limits⟩
    refine ⟨args, ?_⟩
    simp only [frontOf, version, input, opened, read]
    exact dispatch_inr_iff.mpr ⟨rfl, limits⟩

theorem serve_early (bindings : TenantID → Option S) (operator : S)
    (early : ¬ ReachesMirror tools tenant repo found request) : ∃ answer, ∀ mirrors stores,
      stores (resolve bindings operator tenant) (tenant, repo) = found →
      Reads (resolve bindings operator tenant) stores
        (serve tools tenant repo bindings operator mirrors request) (mirrors, answer) := by
  cases request with
  | upload request =>
    cases front : frontOf tools tenant repo request found with
    | inr args => exact absurd (frontOf_inr_iff.mp ⟨args, front⟩) early
    | inl answer =>
      refine ⟨answer, fun mirrors stores holds => ?_⟩
      have reads : Reads (resolve bindings operator tenant) stores
          (uploadFront tools (resolve bindings operator tenant) tenant repo request) _ :=
        uploadFront_reads request
      rw [holds, front] at reads
      exact reads.bind (.pure ..)
  | receive input =>
    cases opened : viewOf tenant repo found with
    | ok view => exact absurd ⟨view, opened⟩ early
    | error cause =>
      refine ⟨.ofOpenError cause, fun mirrors stores holds => ?_⟩
      have reads : Reads (resolve bindings operator tenant) stores
          (openRepo (resolve bindings operator tenant) tenant repo) _ := openRepo_reads
      rw [holds, opened] at reads
      exact reads.bind (.pure ..)

theorem serve_late (bindings : TenantID → Option S) (operator : S)
    (stores : Contents S (TenantID × RepoID) Stored) (late : ReachesMirror tools tenant repo
      (stores (resolve bindings operator tenant) (tenant, repo)) request) (mirrors : Mirrors) :
    ∃ access ∈ (run (serve tools tenant repo bindings operator mirrors request) stores).accesses,
      access.1 = operator := by
  cases request with
  | upload request =>
    have ⟨args, front⟩ := frontOf_inr_iff.mpr late
    obtain ⟨-, -, stored, root, -, -, opened, -⟩ := late
    obtain ⟨tenantID, repoID, -⟩ := viewOf_ok opened
    have reads : Reads (resolve bindings operator tenant) stores
        (uploadFront tools (resolve bindings operator tenant) tenant repo request) _ :=
      uploadFront_reads request
    rw [front] at reads
    have begins : (uploadBehind tools tenant repo operator mirrors args).Begins operator :=
      (managerOpen_begins mirrors tenantID repoID).bind _
    exact reads.then_accesses begins
  | receive input =>
    obtain ⟨view, opened⟩ := late
    obtain ⟨tenantID, repoID, -⟩ := viewOf_ok opened
    have reads : Reads (resolve bindings operator tenant) stores
        (openRepo (resolve bindings operator tenant) tenant repo) _ := openRepo_reads
    rw [opened] at reads
    have begins : (receiveBehind tools (resolve bindings operator tenant) tenant repo operator
        mirrors input).Begins operator := (managerOpen_begins mirrors tenantID repoID).bind _
    exact reads.then_accesses begins

/-- The answer and the tenant's store after the request depend on the tenant's store alone,
whatever the mirrors and the other stores hold, and the operator's store is not used. -/
structure Independent (tools : Tools git) (tenant : TenantID) (repo : RepoID)
    (bindings : TenantID → Option S) (operator : S) (request : Request git)
    (own : TenantID × RepoID → Option Stored) : Prop where
  answer : ∀ mirrors mirrors' stores stores',
    stores (resolve bindings operator tenant) = own →
    stores' (resolve bindings operator tenant) = own →
    (run (serve tools tenant repo bindings operator mirrors request) stores).result.2 =
      (run (serve tools tenant repo bindings operator mirrors' request) stores').result.2
  written : ∀ mirrors mirrors' stores stores',
    stores (resolve bindings operator tenant) = own →
    stores' (resolve bindings operator tenant) = own →
    (run (serve tools tenant repo bindings operator mirrors request) stores).stores
        (resolve bindings operator tenant) =
      (run (serve tools tenant repo bindings operator mirrors' request) stores').stores
        (resolve bindings operator tenant)
  unused : ∀ mirrors stores, stores (resolve bindings operator tenant) = own →
    (run (serve tools tenant repo bindings operator mirrors request) stores).Within (· ≠ operator)

/-- A request of a tenant with a store of its own is independent of the operator's store just
if it does not get as far as the mirror. -/
theorem bound_tenant_independent_iff (tools : Tools git) (tenant : TenantID) (repo : RepoID)
    (bindings : TenantID → Option S) (operator own : S) (bound : bindings tenant = some own)
    (separate : own ≠ operator) (request : Request git)
    (holds : TenantID × RepoID → Option Stored) :
    Independent tools tenant repo bindings operator request holds ↔
      ¬ ReachesMirror tools tenant repo (holds (tenant, repo)) request := by
  have resolved : resolve bindings operator tenant = own := by rw [resolve, bound]; rfl
  constructor
  · intro independent late
    let stores : Contents S (TenantID × RepoID) Stored := fun _ => holds
    obtain ⟨access, member, same⟩ := serve_late bindings operator stores late fun _ => none
    exact independent.unused (fun _ => none) stores rfl access member same
  · intro early
    obtain ⟨answer, reads⟩ := serve_early bindings operator early
    refine ⟨?_, ?_, ?_⟩
    · intro mirrors mirrors' stores stores' here here'
      rw [(reads mirrors stores (by rw [here])).ends, (reads mirrors' stores' (by rw [here'])).ends]
    · intro mirrors mirrors' stores stores' here here'
      rw [(reads mirrors stores (by rw [here])).keeps, (reads mirrors' stores' (by rw [here'])).keeps,
        here, here']
    · intro mirrors stores here access member operators
      have only := (reads mirrors stores (by rw [here])).within access member
      exact separate (resolved.symm.trans (only.symm.trans operators))

/-! A tenant whose repository is still in the operator's bucket, too. -/

section Sample

open Writers

inductive SampleStore where
  | operators
  | own
  deriving DecidableEq

def sampleBindings (tenant : TenantID) : Option SampleStore :=
  if tenant = "acme" then some .own else none

def sampleEngine : Tools sampleGit where
  hashing := spelledHashing
  exporter := sampleTools
  uploader := BucketVcs.Mirror.sampleUploader
  lazyPath := fun _ _ _ => none
  bundleURI := fun _ _ => []
  indexPackStrict := fun bare pack => some { bare with objects := bare.objects ∪ pack }
  screen := fun _ statuses => statuses
  applyRefUpdate := fun bare u =>
    some { bare with refs := applyUpdate bare.refs (u.refname, u.newOID) }
  repack := fun _ => sampleRepack packOne
  patch := fun _ => ⟨none, ""⟩
  version := fun stored => (stored.root.elim 0 Root.version) + 1

def storedOf (σ : World sampleGit) : Stored := ⟨some σ.root, σ.packs, σ.objects⟩

def ownHolds : TenantID × RepoID → Option Stored := fun key =>
  if key = ("acme", "r") then some (storedOf (created mainRef 1)) else none

def leftOver : Contents SampleStore (TenantID × RepoID) Stored
  | .own => ownHolds
  | .operators => fun key => if key = ("acme", "r") then some (storedOf importedWorld) else none

def cleanedUp : Contents SampleStore (TenantID × RepoID) Stored
  | .own => ownHolds
  | .operators => fun _ => none

def fetchOne : Request sampleGit :=
  .upload ⟨2, .command (.fetch (some ⟨[objectOne], [], true, false, false⟩))⟩

/-- The fetch is answered from the operator's bucket, or not at all. -/
theorem bound_tenant_served_by_operator :
    leftOver .own = cleanedUp .own ∧
      (run (serve sampleEngine "acme" "r" sampleBindings .operators (fun _ => none) fetchOne)
        leftOver).result.2 = .fetch (.ok ⟨[], [], false, none, some ⟨[objectOne], true⟩⟩) ∧
      (run (serve sampleEngine "acme" "r" sampleBindings .operators (fun _ => none) fetchOne)
        cleanedUp).result.2 = .mirror (.repoOpen .repoNotFound) := by
  refine ⟨rfl, ?_, ?_⟩
  · decide
  · decide

theorem bound_tenant_independent_sample :
    Independent sampleEngine "acme" "r" sampleBindings .operators (.upload ⟨2, .command .lsRefs⟩)
      ownHolds := by
  refine (bound_tenant_independent_iff sampleEngine "acme" "r" sampleBindings .operators .own rfl
    (by decide) _ ownHolds).mpr ?_
  rintro ⟨-, args, stored, root, body, input, -⟩
  cases input

end Sample

end BucketVcs.Engines
