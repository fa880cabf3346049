import BucketVcs.UploadPack
import BucketVcs.Writers.PushSafety

/-! One gateway with its mirror: fetches and pushes that share a bare repository under a
read-write lock, together with the writers of other processes. -/

namespace BucketVcs.Mirror

open Manifest RefStore Importer ReceivePack Exporter UploadPack Writers Transition

variable {git : Git}

/-- The bucket at one moment: the current root and the replacements that led to it. -/
structure Moment (git : Git) where
  root : Root
  links : List (Link git)

def World.now (σ : World git) : Moment git := ⟨σ.root, σ.links⟩

def Between (began ended : Moment git) (root : Root) : Prop :=
  ∃ newer, ended.links = newer ++ began.links ∧
    (root = began.root ∨ ∃ link ∈ newer, link.next = root)

/-- A fetch, and the moment it began; the code does not keep the latter. -/
structure Fetch (git : Git) where
  request : FetchRequest
  began : Moment git

/-- What a request opens the mirror for. -/
inductive Goal (git : Git) where
  | fetch (f : Fetch git)
  | push

/-- `manifest_version` and `latest_tx` of a root. The version of the put stands for the
latter: both are new with every root. -/
def sentinelOf (root : Root) : Nat × Nat := (root.manifestVersion, root.version)

/-- The bucket, and the gateway's side of one repository: the bare, the sentinel beside it
and the holders of the lock. -/
structure Gateway (git : Git) where
  world : World git
  bare : Repository
  sentinel : Option (Nat × Nat)
  writer : Option ThreadId
  readers : Finset ThreadId

/-- Where a thread stands. `pushing` holds the write lock; `touched` says that the push has
begun to write refs into the bare, `todo` are the commands it has still to write. -/
inductive Seat (git : Git) where
  | outside (phase : Phase git)
  | opening (goal : Goal git)
  | viewed (goal : Goal git) (view : Root)
  | locked (goal : Goal git)
  | syncing (goal : Goal git) (view : Root)
  | opened (goal : Goal git)
  | failed
  | serving (f : Fetch git)
  | answered (f : Fetch git) (answer : Except UploadPack.Error Response)
  | pushing (touched : Bool) (phase : Phase git) (todo : List UpdateCommand)

inductive Label where
  | bucket (l : Writers.Label)
  | work
  | release (marked : Bool)

def requestOfJob : Job git → Option (Push git)
  | .push p _ => some p
  | _ => none

def requestOf : Phase git → Option (Push git)
  | .checked p => some p
  | .accepted p => some p
  | .prepared p _ => some p
  | .ready job => requestOfJob job
  | .publishing job _ _ _ => requestOfJob job
  | .landed job _ => requestOfJob job
  | .reported p _ _ => some p
  | _ => none

def todoOf : Phase git → List UpdateCommand
  | .accepted p => accepted p.statuses
  | _ => []

section Moves

variable (h : Hashing) (exporter : Exporter.Tools git) (uploader : UploadPack.Tools git)

/-- One step of thread `t`. Steps of `Open` are shared by fetches and pushes. -/
inductive Move (t : ThreadId) :
    Gateway git → Seat git → Label → Gateway git → Seat git → Prop where
  | outside {g phase phase' l σ} (moved : Writers.Move h t g.world phase l σ phase') :
      Move t g (.outside phase) (.bucket l) { g with world := σ } (.outside phase')
  | startFetch {g} (request : FetchRequest) :
      Move t g (.outside .idle) .work g (.opening (.fetch ⟨request, World.now g.world⟩))
  | startPush {g} : Move t g (.outside .idle) .work g (.opening .push)
  -- the reachability index answers a round without wants by itself
  | answerLazily {g f} (none : f.request.wants = []) :
      Move t g (.opening (.fetch f)) .work g (.answered f (.ok ⟨[], [], false, Option.none, Option.none⟩))
  -- SyncToCurrent: the check under the read lock
  | openFails {g goal} : Move t g (.opening goal) .work g .failed
  | current {g goal} (free : g.writer = none)
      (same : g.sentinel = some (sentinelOf g.world.root)) :
      Move t g (.opening goal) .work g (.opened goal)
  -- and the slow path: the root is read again under the write lock
  | lock {g goal} (free : g.writer = none) (unread : g.readers = ∅) :
      Move t g (.opening goal) .work { g with writer := some t } (.locked goal)
  | readRoot {g goal} :
      Move t g (.locked goal) .work g (.syncing goal g.world.root)
  | readRootFails {g goal} :
      Move t g (.locked goal) .work { g with writer := none } .failed
  -- the first Open of a repository reads the root before it locks
  | readFirst {g goal} :
      Move t g (.opening goal) .work g (.viewed goal g.world.root)
  | lockFirst {g goal view} (free : g.writer = none)
      (unread : g.readers = ∅) :
      Move t g (.viewed goal view) .work { g with writer := some t } (.syncing goal view)
  -- syncToHeld; Export reads the root once more
  | unchanged {g goal view} (same : g.sentinel = some (sentinelOf view)) :
      Move t g (.syncing goal view) .work { g with writer := none } (.opened goal)
  | rebuild {g goal view result} (stale : g.sentinel ≠ some (sentinelOf view))
      (exported : exportRepository h exporter g.world.packs g.world.objects g.world.root false =
        .ok result) :
      Move t g (.syncing goal view) .work
        { g with bare := result.repository, sentinel := some (sentinelOf view), writer := none }
        (.opened goal)
  | rebuildFails {g goal view bare} (stale : g.sentinel ≠ some (sentinelOf view))
      (written : ∀ name oid, bare.refs.lookup name = some oid → ∃ refs,
        RefStore.list h g.world.objects g.world.root.body = .ok refs ∧ refs.lookup name = some oid) :
      Move t g (.syncing goal view) .work
        { g with bare := bare, sentinel := none, writer := none } .failed
  -- serveFetch under the read lock
  | rlock {g f} (free : g.writer = none) :
      Move t g (.opened (.fetch f)) .work { g with readers := insert t g.readers } (.serving f)
  | answer {g f} (advertised : Except UploadPack.Error (Option PackID)) :
      Move t g (.serving f) .work { g with readers := g.readers.erase t }
        (.answered f (serveFetch uploader g.bare advertised f.request))
  -- completeReceivePack under the write lock
  | lockPush {g} (free : g.writer = none) (unread : g.readers = ∅) :
      Move t g (.opened .push) .work { g with writer := some t } (.pushing false .idle [])
  | indexPack {g p} (inbound : Finset OID) :
      Move t g (.pushing false (.checked p) []) .work
        { g with bare := { g.bare with objects := g.bare.objects ∪ inbound } }
        (.pushing false (.checked p) [])
  | pushWork {g touched phase phase' l σ} (moved : Writers.Move h t g.world phase l σ phase')
      (own : (requestOf phase').isSome) :
      Move t g (.pushing touched phase []) (.bucket l) { g with world := σ }
        (.pushing touched phase' (todoOf phase'))
  | applyRef {g touched p u rest} :
      Move t g (.pushing touched (.accepted p) (u :: rest)) .work
        { g with bare := { g.bare with
            refs := applyUpdate g.bare.refs (u.refname, u.newOID) } }
        (.pushing true (.accepted p) rest)
  | applyFails {g touched p u rest} :
      Move t g (.pushing touched (.accepted p) (u :: rest)) .work g
        (.pushing true (.reported p .turnedDown
          (settle (.ng "internal-mirror-error") p.statuses)) [])
  -- markMirrorStale, if refs were written, and unlock; a failing removal goes unnoticed
  | release {g touched p course report} (marked : Bool) :
      Move t g (.pushing touched (.reported p course report) []) (.release marked)
        { g with sentinel := if touched && marked then none else g.sentinel, writer := none }
        (.outside (.reported p course report))

end Moves

abbrev System (git : Git) := Interleave.System ThreadId (Gateway git) (Seat git)

abbrev Step (h : Hashing) (exporter : Exporter.Tools git) (uploader : UploadPack.Tools git) :
    System git → ThreadId × Label → System git → Prop :=
  Interleave.Step (Move h exporter uploader)

def start (exporter : Exporter.Tools git) (defaultBranch : RefName) (version : Nat) : System git :=
  ⟨⟨created defaultBranch version, initBare exporter, none, none, ∅⟩, fun _ => .outside .idle⟩

end BucketVcs.Mirror
