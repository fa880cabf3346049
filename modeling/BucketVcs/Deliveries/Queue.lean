import Mathlib.Data.List.Perm.Basic
import BucketVcs.Lib.Run
import BucketVcs.Lib.Table

/-! The two delivery queues, webhooks and build triggers: the rows of their tables and the statements
that move a row. The twins differ in who owns a delivery, in what a permanent failure does, in what a
replay resets and in what happens to the deliveries of an owner that is removed. -/

namespace BucketVcs.Deliveries

open List Option Function Table

inductive Queue where
  | webhooks
  | buildTriggers
  deriving DecidableEq, Repr

inductive Status where
  | pending
  | inFlight
  | delivered
  | deadLetter
  deriving DecidableEq, Repr

def Status.done : Status → Bool
  | .delivered | .deadLetter => true
  | .pending | .inFlight => false

/-- A row of `webhook_deliveries`, owned by an endpoint, or of `build_trigger_deliveries`, owned by
a trigger. Times are Unix seconds and texts are bytes. -/
structure DeliveryRow where
  owner : String
  status : Status
  attempts : Nat
  nextAttemptAt : Int
  lastAttemptAt : Option Int
  lastStatusCode : Option Nat
  lastError : Option (List UInt8)
  deliveredAt : Option Int
  deriving DecidableEq, Repr

abbrev Rows := String → Option DeliveryRow

/-- The owners and whether each is active. -/
abbrev Owners := String → Option Bool

structure WorkerConfig where
  queue : Queue
  claimBatchSize : Nat
  concurrency : Nat
  backoffSchedule : List Int
  reclaimThreshold : Int
  /-- The backend claims with one `UPDATE … RETURNING` instead of a transaction. -/
  supportsSkipLocked : Bool

structure ClaimedRow where
  id : String
  attempts : Nat
  deriving DecidableEq, Repr

structure AttemptError where
  text : List UInt8
  permanent : Bool
  deriving DecidableEq, Repr

structure Result where
  statusCode : Nat
  error : Option AttemptError
  deriving DecidableEq, Repr

def enqueued (owner : String) (now : Int) : DeliveryRow :=
  ⟨owner, .pending, 0, now, none, none, none, none⟩

section Claim

variable (owners : Owners) (now : Int)

def due (row : DeliveryRow) : Bool :=
  row.status = .pending && row.nextAttemptAt ≤ now && owners row.owner = some true

def stamp (row : DeliveryRow) : DeliveryRow :=
  { row with status := .inFlight, lastAttemptAt := some now, attempts := row.attempts + 1 }

/-- `claim` of the rows with these ids; which of the due rows it takes is up to the order of the
query, the batch size and the locks of other claims. -/
def claim (rows : Rows) (ids : List String) : Rows :=
  Table.updateWhere rows (fun id _ => id ∈ ids) (stamp now)

def claimedRows (rows : Rows) (ids : List String) : List ClaimedRow :=
  ids.filterMap fun id => (rows id).map fun row => ⟨id, row.attempts + 1⟩

end Claim

section Record

variable (config : WorkerConfig) (now : Int)

def truncErr (text : List UInt8) : List UInt8 :=
  if text.length ≤ 512 then text else text.take 512

def backoff (attempts : Nat) : Int :=
  config.backoffSchedule.getD (min (attempts - 1) (config.backoffSchedule.length - 1)) 0

/-- Whether a failure is the last one. Webhooks have no permanent failures. -/
def exhausted (error : AttemptError) (attempts : Nat) : Bool :=
  match config.queue with
  | .webhooks => config.backoffSchedule.length + 1 ≤ attempts
  | .buildTriggers => error.permanent || config.backoffSchedule.length + 1 ≤ attempts

def resultRow (attempts : Nat) (jitter : Int) (result : Result) (row : DeliveryRow) : DeliveryRow :=
  match result.error with
  | none =>
    { row with
      status := .delivered, deliveredAt := some now, lastStatusCode := some result.statusCode,
      lastError := none, nextAttemptAt := now }
  | some error =>
    if exhausted config error attempts then
      { row with
        status := .deadLetter, lastStatusCode := some result.statusCode,
        lastError := some (truncErr error.text), nextAttemptAt := now }
    else
      { row with
        status := .pending, nextAttemptAt := now + (backoff config attempts + jitter),
        lastStatusCode := some result.statusCode, lastError := some (truncErr error.text) }

/-- `recordResult`: the statement names the row by its id only. -/
def recordResult (rows : Rows) (claimed : ClaimedRow) (jitter : Int) (result : Result) : Rows :=
  Table.updateWhere rows (fun id _ => id = claimed.id)
    (resultRow config now claimed.attempts jitter result)

theorem resultRow_status_ne (attempts : Nat) (jitter : Int) (result : Result) (row : DeliveryRow) :
    (resultRow config now attempts jitter result row).status ≠ .inFlight := by
  unfold resultRow
  cases result.error with
  | none => simp
  | some error => cases last : exhausted config error attempts <;> simp [last]

end Record

section Sweeps

variable (config : WorkerConfig) (now : Int)

def overdue (row : DeliveryRow) : Bool :=
  row.status = .inFlight && row.lastAttemptAt.any fun last => last < now - config.reclaimThreshold

def reclaim (rows : Rows) : Rows :=
  Table.updateWhere rows (fun _ row => overdue config now row) fun row =>
    { row with status := .pending }

def triggerRemoved : List UInt8 := "trigger removed".toUTF8.toList

def deadLetterOrphans (owners : Owners) (rows : Rows) : Rows :=
  Table.updateWhere rows (fun _ row => row.status = .pending && owners row.owner = none) fun row =>
    { row with status := .deadLetter, lastError := some triggerRemoved, nextAttemptAt := now }

/-- What a replay sets. The build trigger queue keeps the attempts and the times. -/
def replayed : DeliveryRow → DeliveryRow :=
  match config.queue with
  | .webhooks => fun row =>
    { row with
      status := .pending, attempts := 0, nextAttemptAt := now, lastError := none,
      lastStatusCode := none, lastAttemptAt := none, deliveredAt := none }
  | .buildTriggers => fun row =>
    { row with status := .pending, nextAttemptAt := now, lastError := none }

def replayDelivery (rows : Rows) (id : String) : Rows :=
  Table.updateWhere rows (fun key row => key = id && row.status ≠ .inFlight) (replayed config now)

def pruneDelivered (cutoff : Int) (rows : Rows) : Rows :=
  Table.deleteWhere rows fun _ row => row.status = .delivered && row.deliveredAt.any (· < cutoff)

def pruneDeadLetter (cutoff : Int) (rows : Rows) : Rows :=
  Table.deleteWhere rows fun _ row => row.status = .deadLetter && row.lastAttemptAt.any (· < cutoff)

/-- The deliveries of an endpoint go with it, those of a trigger stay. -/
def removeOwner (owner : String) (rows : Rows) : Rows :=
  match config.queue with
  | .webhooks => Table.deleteWhere rows fun _ row => row.owner = owner
  | .buildTriggers => rows

end Sweeps

/-! The workers of a queue: the loop of `StartWorker` with its batch and its goroutines, for any
number of workers on one database, among pushes, replays, sweeps, cancellations and crashes. -/

/-- A goroutine of the loop: the attempt runs until it has a result, which is then written. -/
structure Attempt where
  row : ClaimedRow
  result : Option Result
  deriving DecidableEq, Repr

inductive Loop where
  | running
  | returned
  | crashed
  deriving DecidableEq, Repr

/-- A call of `StartWorker`: whether its context is cancelled, the rows of the batch that wait for
the semaphore, and the goroutines. -/
structure Worker where
  loop : Loop
  cancelled : Bool
  claimed : List ClaimedRow
  attempts : List Attempt
  deriving DecidableEq, Repr

namespace Worker

def fresh : Worker := ⟨.running, false, [], []⟩

def holds (worker : Worker) : List String :=
  worker.claimed.map (·.id) ++ worker.attempts.map (·.row.id)

def dispatch (concurrency : Nat) (worker : Worker) : Option Worker :=
  match worker.claimed with
  | [] => none
  | row :: rest =>
    if worker.attempts.length < concurrency then
      some { worker with claimed := rest, attempts := worker.attempts ++ [⟨row, none⟩] }
    else none

def finish (index : Nat) (result : Result) (worker : Worker) : Worker :=
  { worker with attempts := worker.attempts.modify index fun attempt =>
      { attempt with result := some result } }

def leave (index : Nat) (worker : Worker) : Worker :=
  { worker with attempts := worker.attempts.eraseIdx index }

variable {worker : Worker} {index : Nat}

theorem perm_holds_dispatch {concurrency : Nat} {after : Worker}
    (dispatched : worker.dispatch concurrency = some after) :
    after.holds.Perm worker.holds ∧ after.loop = worker.loop ∧ after.cancelled = worker.cancelled := by
  unfold dispatch at dispatched
  split at dispatched
  · cases dispatched
  · rename_i row rest batch
    obtain ⟨_, same⟩ := ite_none_right_eq_some.mp dispatched
    cases same
    refine ⟨?_, rfl, rfl⟩
    simp only [holds, batch, map_append]
    rw [← append_assoc]
    exact perm_append_singleton _ _

@[simp] theorem holds_finish (result : Result) : (worker.finish index result).holds = worker.holds := by
  simp only [holds, finish]
  congr 1
  apply ext_getElem?
  intro i
  simp only [List.getElem?_map, List.getElem?_modify]
  split <;> cases worker.attempts[i]? <;> rfl

theorem holds_leave {attempt : Attempt} (running : worker.attempts[index]? = some attempt) :
    worker.holds.Perm (attempt.row.id :: (worker.leave index).holds) := by
  obtain ⟨bound, here⟩ := List.getElem?_eq_some_iff.mp running
  have split : worker.attempts.Perm (attempt :: worker.attempts.eraseIdx index) := by
    rw [← here]
    exact (getElem_cons_eraseIdx_perm bound).symm
  refine (List.Perm.append_left _ (split.map (·.row.id))).trans ?_
  exact perm_middle

end Worker

/-- The database and the workers `W`. `minted` are the delivery ids so far, `holder` is the worker
that claimed a row last; neither is kept by the source. -/
structure World (W : Type) where
  now : Int
  owners : Owners
  rows : Rows
  minted : List String
  holder : String → Option W
  workers : W → Worker

inductive Act (W : Type) where
  | tick (seconds : Nat)
  | enqueue (id owner : String)
  | setOwner (owner : String) (active : Bool)
  | removeOwner (owner : String)
  | replay (id : String)
  | pruneDelivered (cutoff : Int)
  | pruneDeadLetter (cutoff : Int)
  | reclaim
  | deadLetterOrphans
  | claim (w : W) (ids : List String) (lost : Bool)
  | dispatch (w : W)
  | finish (w : W) (index : Nat) (result : Result)
  | record (w : W) (index : Nat) (jitter : Int) (written : Bool)
  | cancel (w : W)
  | stop (w : W)
  | crash (w : W)
  deriving DecidableEq, Repr

namespace World

variable {W : Type} [DecidableEq W] (config : WorkerConfig) (s : World W)

def setWorker (w : W) (worker : Worker) : World W :=
  { s with workers := Function.update s.workers w worker }

def claimable (w : W) (ids : List String) : Bool :=
  (s.workers w).loop = .running && !(s.workers w).cancelled && (s.workers w).claimed.isEmpty &&
    ids.Nodup && ids.length ≤ config.claimBatchSize &&
    ids.all fun id => (s.rows id).any (due s.owners s.now)

/-- The claim takes effect. A single statement whose context is cancelled after it took effect, but
before its rows were read, loses them: `claim` then returns the error of the context. -/
def claimed (w : W) (ids : List String) (lost : Bool) : World W :=
  let worker := s.workers w
  { s with
    rows := claim s.now s.rows ids
    holder := fun id => if id ∈ ids then some w else s.holder id
    workers := Function.update s.workers w
      (if lost then { worker with cancelled := true }
       else { worker with claimed := claimedRows s.rows ids }) }

/-- Whether the statement of `recordResult` can run: webhooks detach the cancellation of the loop
from their attempts, build triggers pass its context on. -/
def recordable (w : W) : Bool :=
  match config.queue with
  | .webhooks => true
  | .buildTriggers => !(s.workers w).cancelled

def recorded (w : W) (index : Nat) (row : ClaimedRow) (jitter : Int) (result : Result)
    (written : Bool) : World W :=
  { s.setWorker w ((s.workers w).leave index) with
    rows := if written && s.recordable config w then
        recordResult config s.now s.rows row jitter result else s.rows }

def next : Act W → Option (World W)
  | .tick seconds => some { s with now := s.now + seconds }
  | .enqueue id owner =>
    if id ∉ s.minted ∧ s.rows id = none ∧ s.owners owner ≠ none then
      some { s with
        rows := Function.update s.rows id (some (enqueued owner s.now))
        minted := id :: s.minted }
    else none
  | .setOwner owner active => some { s with owners := Function.update s.owners owner (some active) }
  | .removeOwner owner =>
    some { s with
      owners := Function.update s.owners owner none
      rows := removeOwner config owner s.rows }
  | .replay id => some { s with rows := replayDelivery config s.now s.rows id }
  | .pruneDelivered cutoff =>
    if config.queue = .webhooks then some { s with rows := pruneDelivered cutoff s.rows } else none
  | .pruneDeadLetter cutoff =>
    if config.queue = .webhooks then some { s with rows := pruneDeadLetter cutoff s.rows } else none
  | .reclaim => some { s with rows := reclaim config s.now s.rows }
  | .deadLetterOrphans =>
    if config.queue = .buildTriggers then
      some { s with rows := deadLetterOrphans s.now s.owners s.rows }
    else none
  | .claim w ids lost =>
    if s.claimable config w ids ∧ (lost → config.supportsSkipLocked) then
      some (s.claimed w ids lost)
    else none
  | .dispatch w => ((s.workers w).dispatch config.concurrency).map (s.setWorker w)
  | .finish w index result =>
    match (s.workers w).attempts[index]? with
    | some ⟨_, none⟩ => some (s.setWorker w ((s.workers w).finish index result))
    | _ => none
  | .record w index jitter written =>
    match (s.workers w).attempts[index]? with
    | some ⟨row, some result⟩ => some (s.recorded config w index row jitter result written)
    | _ => none
  | .cancel w => some (s.setWorker w { s.workers w with cancelled := true })
  | .stop w =>
    -- the loop sees `ctx.Done()` between two batches and waits for its goroutines
    if (s.workers w).loop = .running ∧ (s.workers w).cancelled ∧ (s.workers w).holds = [] then
      some (s.setWorker w { s.workers w with loop := .returned })
    else none
  | .crash w =>
    if (s.workers w).loop = .running then some (s.setWorker w ⟨.crashed, true, [], []⟩) else none

variable {config s} {s' : World W} {w : W} {index : Nat}

theorem next_finish {result : Result} (moved : s.next config (.finish w index result) = some s') :
    ∃ row, (s.workers w).attempts[index]? = some ⟨row, none⟩ ∧
      s' = s.setWorker w ((s.workers w).finish index result) := by
  simp only [next] at moved
  split at moved
  · rename_i row held
    exact ⟨row, held, (some.inj moved).symm⟩
  · cases moved

theorem next_record {jitter : Int} {written : Bool}
    (moved : s.next config (.record w index jitter written) = some s') :
    ∃ row result, (s.workers w).attempts[index]? = some ⟨row, some result⟩ ∧
      s' = s.recorded config w index row jitter result written := by
  simp only [next] at moved
  split at moved
  · rename_i row result held
    exact ⟨row, result, held, (some.inj moved).symm⟩
  · cases moved

end World

def Step {W : Type} [DecidableEq W] (config : WorkerConfig) (s : World W) (act : Act W)
    (s' : World W) : Prop := s.next config act = some s'

section Steps

variable {W : Type} {config : WorkerConfig} {s s' : World W} {act : Act W}

def Act.removes : Act W → Bool
  | .removeOwner _ | .pruneDelivered _ | .pruneDeadLetter _ => true
  | _ => false

inductive RowStep (config : WorkerConfig) (s : World W) (id : String) :
    Act W → Option DeliveryRow → Option DeliveryRow → Prop where
  | same {act row} : RowStep config s id act row row
  | enqueued {owner row} (new : id ∉ s.minted)
      (after : row.status = .pending) :
      RowStep config s id (.enqueue id owner) none (some row)
  | removed {act row} (removes : act.removes = true) :
      RowStep config s id act (some row) none
  | replayed {row row'} (idle : row.status ≠ .inFlight) (after : row'.status = .pending) :
      RowStep config s id (.replay id) (some row) (some row')
  | reclaimed {row row'} (late : overdue config s.now row = true)
      (after : row'.status = .pending) : RowStep config s id .reclaim (some row) (some row')
  | orphaned {row row'} (before : row.status = .pending)
      (after : row'.status = .deadLetter) :
      RowStep config s id .deadLetterOrphans (some row) (some row')
  | claimed {w ids lost row row'} (member : id ∈ ids)
      (before : row.status = .pending) (after : row'.status = .inFlight) :
      RowStep config s id (.claim w ids lost) (some row) (some row')
  | recorded {w index jitter attempt row row'}
      (held : (s.workers w).attempts[index]? = some attempt) (names : attempt.row.id = id)
      (after : row'.status ≠ .inFlight) :
      RowStep config s id (.record w index jitter true) (some row) (some row')

variable {rows : Rows} {where_ : String → DeliveryRow → Bool} {w : W} {ids : List String}
  {id : String}

theorem rowStep_updateWhere {change : DeliveryRow → DeliveryRow} (id : String)
    (met : ∀ row, rows id = some row → where_ id row = true →
      RowStep config s id act (some row) (some (change row))) :
    RowStep config s id act (rows id) (updateWhere rows where_ change id) := by
  cases here : rows id with
  | none =>
    rw [updateWhere_eq_none.mpr here]
    exact .same
  | some row =>
    cases holds : where_ id row with
    | true =>
      rw [updateWhere_of_met here holds]
      exact met row here holds
    | false =>
      rw [updateWhere_of_not here holds]
      exact .same

theorem rowStep_deleteWhere (id : String) (removes : act.removes = true) :
    RowStep config s id act (rows id) (deleteWhere rows where_ id) := by
  cases here : rows id with
  | none =>
    rw [deleteWhere_of_none here]
    exact .same
  | some row =>
    cases after : deleteWhere rows where_ id with
    | none => exact .removed removes
    | some row' =>
      have kept := (deleteWhere_eq_some.mp after).1
      rw [← here, kept]
      exact .same

theorem due_of_claimable (claimable : s.claimable config w ids = true) (member : id ∈ ids) :
    ∃ row, s.rows id = some row ∧ row.status = .pending := by
  simp only [World.claimable, Bool.and_eq_true, List.all_eq_true] at claimable
  obtain ⟨row, here, isDue⟩ := (Option.any_eq_true _ _).mp (claimable.2 id member)
  simp only [due, Bool.and_eq_true, decide_eq_true_eq] at isDue
  exact ⟨row, here, isDue.1.1⟩

variable [DecidableEq W]

theorem row_step (moved : Step config s act s') (id : String) :
    RowStep config s id act (s.rows id) (s'.rows id) := by
  cases act with
  | tick seconds | setOwner owner active | cancel w =>
    cases moved
    exact .same
  | enqueue fresh owner =>
    obtain ⟨⟨new, absent, _⟩, after⟩ := ite_none_right_eq_some.mp moved
    cases after
    by_cases same : id = fresh
    · subst same
      simp only [update_self, absent]
      exact .enqueued new rfl
    · simp only [update_of_ne same]
      exact .same
  | removeOwner owner =>
    cases moved
    cases kind : config.queue with
    | webhooks =>
      simp only [removeOwner, kind]
      apply rowStep_deleteWhere id
      rfl
    | buildTriggers =>
      simp only [removeOwner, kind]
      exact .same
  | replay other =>
    cases moved
    apply rowStep_updateWhere id
    intro row _ met
    simp only [Bool.and_eq_true, decide_eq_true_eq] at met
    obtain ⟨rfl, idle⟩ := met
    refine .replayed idle ?_
    cases kind : config.queue <;> simp [replayed, kind]
  | pruneDelivered cutoff | pruneDeadLetter cutoff =>
    obtain ⟨_, after⟩ := ite_none_right_eq_some.mp moved
    cases after
    apply rowStep_deleteWhere id
    rfl
  | reclaim =>
    cases moved
    apply rowStep_updateWhere id
    intro row _ late
    exact .reclaimed late rfl
  | deadLetterOrphans =>
    obtain ⟨_, after⟩ := ite_none_right_eq_some.mp moved
    cases after
    apply rowStep_updateWhere id
    intro row _ met
    simp only [Bool.and_eq_true, decide_eq_true_eq] at met
    exact .orphaned met.1 rfl
  | claim w ids lost =>
    obtain ⟨⟨claimable, _⟩, after⟩ := ite_none_right_eq_some.mp moved
    cases after
    apply rowStep_updateWhere id
    intro row here inside
    have member := of_decide_eq_true inside
    obtain ⟨found, there, pending⟩ := due_of_claimable claimable member
    cases here.symm.trans there
    exact .claimed member pending rfl
  | dispatch w =>
    obtain ⟨worker, _, after⟩ := map_eq_some_iff.mp moved
    cases after
    exact .same
  | finish w index result =>
    obtain ⟨attempt, _, rfl⟩ := World.next_finish moved
    exact .same
  | record w index jitter written =>
    obtain ⟨row, result, held, rfl⟩ := World.next_record moved
    cases success : written && s.recordable config w with
    | true =>
      obtain ⟨rfl, _⟩ := Bool.and_eq_true_iff.mp success
      simp only [World.recorded, success]
      apply rowStep_updateWhere id
      intro before _ names
      exact .recorded held (of_decide_eq_true names).symm (resultRow_status_ne _ _ _ _ _ _)
    | false =>
      simp only [World.recorded, success]
      exact .same
  | stop w | crash w =>
    obtain ⟨_, after⟩ := ite_none_right_eq_some.mp moved
    cases after
    exact .same

def Act.worker : Act W → Option W
  | .claim w _ _ | .dispatch w | .finish w _ _ | .record w _ _ _ | .cancel w | .stop w | .crash w =>
    some w
  | _ => none

inductive WorkerStep (w : W) : Act W → Worker → Worker → Prop where
  | same {act worker} (other : act.worker ≠ some w) :
      WorkerStep w act worker worker
  | dispatched {worker worker'} (perm : worker'.holds.Perm worker.holds)
      (loop : worker'.loop = worker.loop) (cancelled : worker'.cancelled = worker.cancelled) :
      WorkerStep w (.dispatch w) worker worker'
  | finished {index result worker} :
      WorkerStep w (.finish w index result) worker (worker.finish index result)
  | claimed {ids worker rows} (running : worker.loop = .running) (live : worker.cancelled = false)
      (idle : worker.claimed = []) (distinct : ids.Nodup) (names : rows.map (·.id) = ids) :
      WorkerStep w (.claim w ids false) worker { worker with claimed := rows }
  | lost {ids worker} :
      WorkerStep w (.claim w ids true) worker { worker with cancelled := true }
  | recorded {index jitter written worker attempt} (held : worker.attempts[index]? = some attempt) :
      WorkerStep w (.record w index jitter written) worker (worker.leave index)
  | cancelled {worker} : WorkerStep w (.cancel w) worker { worker with cancelled := true }
  | stopped {worker} (running : worker.loop = .running) (drained : worker.holds = []) :
      WorkerStep w (.stop w) worker { worker with loop := .returned }
  | crashed {worker} : WorkerStep w (.crash w) worker ⟨.crashed, true, [], []⟩

theorem workerStep_update {u : W} {worker : Worker} (taken : act.worker = some u)
    (here : u = w → WorkerStep w act (s.workers w) worker) :
    WorkerStep w act (s.workers w) (update s.workers u worker w) := by
  by_cases same : w = u
  · subst same
    rw [update_self]
    exact here rfl
  · rw [update_of_ne same]
    refine .same fun mine => same ?_
    exact some.inj (mine.symm.trans taken)

omit [DecidableEq W] in
theorem claimedRows_ids (found : ∀ id ∈ ids, ∃ row, s.rows id = some row) :
    (claimedRows s.rows ids).map (·.id) = ids := by
  induction ids with
  | nil => rfl
  | cons id rest ih =>
    obtain ⟨row, here⟩ := found id mem_cons_self
    have tail := ih fun other member => found other (mem_cons_of_mem _ member)
    simpa [claimedRows, here] using tail

theorem worker_step (moved : Step config s act s') (w : W) :
    WorkerStep w act (s.workers w) (s'.workers w) := by
  cases act with
  | claim u ids lost =>
    obtain ⟨⟨claimable, _⟩, after⟩ := ite_none_right_eq_some.mp moved
    cases after
    apply workerStep_update rfl
    rintro rfl
    cases lost with
    | true => exact .lost
    | false =>
      have found (id : String) (member : id ∈ ids) : ∃ row, s.rows id = some row := by
        obtain ⟨row, here, _⟩ := due_of_claimable claimable member
        exact ⟨row, here⟩
      simp only [World.claimable, Bool.and_eq_true, Bool.not_eq_true', List.isEmpty_iff,
        decide_eq_true_eq] at claimable
      obtain ⟨⟨⟨⟨⟨running, live⟩, idle⟩, distinct⟩, _⟩, _⟩ := claimable
      exact .claimed running live idle distinct (claimedRows_ids found)
  | dispatch u =>
    obtain ⟨worker, dispatched, after⟩ := map_eq_some_iff.mp moved
    cases after
    apply workerStep_update rfl
    rintro rfl
    obtain ⟨perm, loop, cancelled⟩ := Worker.perm_holds_dispatch dispatched
    exact .dispatched perm loop cancelled
  | finish u index result =>
    obtain ⟨row, _, rfl⟩ := World.next_finish moved
    apply workerStep_update rfl
    rintro rfl
    exact .finished
  | record u index jitter written =>
    obtain ⟨row, result, held, rfl⟩ := World.next_record moved
    apply workerStep_update rfl
    rintro rfl
    exact .recorded held
  | cancel u =>
    cases moved
    apply workerStep_update rfl
    rintro rfl
    exact .cancelled
  | stop u =>
    obtain ⟨⟨running, _, drained⟩, after⟩ := ite_none_right_eq_some.mp moved
    cases after
    apply workerStep_update rfl
    rintro rfl
    exact .stopped running drained
  | crash u =>
    obtain ⟨_, after⟩ := ite_none_right_eq_some.mp moved
    cases after
    apply workerStep_update rfl
    rintro rfl
    exact .crashed
  | tick seconds | setOwner owner active | removeOwner owner | replay id | reclaim =>
    cases moved
    exact .same (by simp [Act.worker])
  | _ =>
    obtain ⟨_, after⟩ := ite_none_right_eq_some.mp moved
    cases after
    exact .same (by simp [Act.worker])

attribute [local simp] World.claimed

theorem holder_step (moved : Step config s act s') (id : String) :
    s'.holder id = s.holder id ∨
      ∃ w ids lost, act = .claim w ids lost ∧ id ∈ ids ∧ s'.holder id = some w := by
  cases act with
  | claim w ids lost =>
    obtain ⟨_, after⟩ := ite_none_right_eq_some.mp moved
    cases after
    by_cases member : id ∈ ids
    · exact .inr ⟨w, ids, lost, rfl, member, by simp [member]⟩
    · exact .inl (by simp [member])
  | finish w index result =>
    obtain ⟨row, _, rfl⟩ := World.next_finish moved
    exact .inl rfl
  | record w index jitter written =>
    obtain ⟨row, result, _, rfl⟩ := World.next_record moved
    exact .inl rfl
  | dispatch w =>
    obtain ⟨worker, _, after⟩ := map_eq_some_iff.mp moved
    cases after
    exact .inl rfl
  | enqueue _ _ | pruneDelivered _ | pruneDeadLetter _ | deadLetterOrphans | stop _ | crash _ =>
    obtain ⟨_, after⟩ := ite_none_right_eq_some.mp moved
    cases after
    exact .inl rfl
  | _ =>
    cases moved
    exact .inl rfl

def Act.mints : Act W → List String
  | .enqueue id _ => [id]
  | _ => []

theorem minted_step (moved : Step config s act s') : s'.minted = act.mints ++ s.minted := by
  cases act with
  | finish w index result =>
    obtain ⟨row, _, rfl⟩ := World.next_finish moved
    rfl
  | record w index jitter written =>
    obtain ⟨row, result, _, rfl⟩ := World.next_record moved
    rfl
  | dispatch w =>
    obtain ⟨worker, _, after⟩ := map_eq_some_iff.mp moved
    cases after
    rfl
  | enqueue _ _ | claim _ _ _ | pruneDelivered _ | pruneDeadLetter _ | deadLetterOrphans | stop _
  | crash _ =>
    obtain ⟨_, after⟩ := ite_none_right_eq_some.mp moved
    cases after
    rfl
  | _ =>
    cases moved
    rfl

theorem rows_claim {lost : Bool} (moved : Step config s (.claim w ids lost) s') (member : id ∈ ids) :
    ∃ row, s.rows id = some row ∧ row.status = .pending ∧ s'.rows id = some (stamp s.now row) ∧
      s'.holder id = some w := by
  obtain ⟨⟨claimable, _⟩, after⟩ := ite_none_right_eq_some.mp moved
  cases after
  obtain ⟨row, here, pending⟩ := due_of_claimable claimable member
  refine ⟨row, here, pending, ?_, ?_⟩
  · simp [claim, updateWhere, here, member]
  · simp [member]

theorem rows_record {index : ℕ} {jitter : Int} {attempt : Attempt}
    (moved : Step config s (.record w index jitter true) s')
    (running : s.recordable config w = true) (held : (s.workers w).attempts[index]? = some attempt)
    {row : DeliveryRow} (after : s'.rows attempt.row.id = some row) : row.status ≠ .inFlight := by
  obtain ⟨claimed, result, there, rfl⟩ := World.next_record moved
  cases held.symm.trans there
  simp only [World.recorded, running, Bool.and_self, if_true] at after
  obtain ⟨before, -, ⟨-, rfl⟩ | ⟨other, -⟩⟩ := updateWhere_eq_some after
  · exact resultRow_status_ne _ _ _ _ _ _
  · simp at other

theorem mem_holds_step (moved : Step config s act s') (member : id ∈ (s'.workers w).holds) :
    id ∈ (s.workers w).holds ∨ ∃ ids, act = .claim w ids false ∧ id ∈ ids := by
  have step := worker_step moved w
  generalize s'.workers w = after at step member
  cases step with
  | same _ | lost | cancelled | stopped _ _ => exact .inl member
  | dispatched perm _ _ => exact .inl (perm.mem_iff.mp member)
  | finished =>
    rw [Worker.holds_finish] at member
    exact .inl member
  | @claimed ids _ rows _ _ _ _ names =>
    rcases mem_append.mp member with new | old
    · exact .inr ⟨ids, rfl, names ▸ new⟩
    · exact .inl (mem_append_right _ old)
  | recorded held =>
    have perm := Worker.holds_leave held
    exact .inl (perm.mem_iff.mpr (mem_cons_of_mem _ member))
  | crashed => cases member

end Steps

end BucketVcs.Deliveries
