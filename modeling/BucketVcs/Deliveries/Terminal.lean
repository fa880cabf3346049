import BucketVcs.Deliveries.Queue

/-! Whether a delivery that is delivered or dead-lettered stays so. -/

namespace BucketVcs.Deliveries

open Transition List Option World

variable {W : Type}

structure Initial (s : World W) : Prop where
  minted : ∀ id row, s.rows id = some row → id ∈ s.minted
  idle : ∀ w, s.workers w = .fresh

/-- `Reclaim` takes back no row that a worker still holds: the attempt of an overdue row is over,
with its result written or its worker crashed. -/
def ReclaimsEnded (config : WorkerConfig) (e : Event (World W) (Act W)) : Prop :=
  match e.label with
  | .reclaim => ∀ id row, e.pre.rows id = some row → overdue config e.pre.now row = true →
      ∀ w, id ∉ (e.pre.workers w).holds
  | _ => True

/-- Every row that a worker holds is in flight, for this worker and for one attempt. -/
structure Sound (s : World W) : Prop where
  minted : ∀ id row, s.rows id = some row → id ∈ s.minted
  known : ∀ w, ∀ id ∈ (s.workers w).holds, id ∈ s.minted
  holder : ∀ w, ∀ id ∈ (s.workers w).holds, s.holder id = some w
  inFlight : ∀ w, ∀ id ∈ (s.workers w).holds, ∀ row, s.rows id = some row → row.status = .inFlight
  distinct : ∀ w, (s.workers w).holds.Nodup

theorem Initial.sound {s : World W} (initial : Initial s) : Sound s := by
  have empty (w : W) : (s.workers w).holds = [] := by
    rw [initial.idle w]
    rfl
  refine ⟨initial.minted, ?_, ?_, ?_, ?_⟩ <;> simp [empty]

variable [DecidableEq W] {config : WorkerConfig} {s s' : World W} {act : Act W}

variable {w u : W} {id : String} {index : ℕ} {attempt : Attempt} {row : DeliveryRow}

theorem not_held_of_claimed (sound : Sound s) {ids : List String} {lost : Bool}
    (moved : Step config s (.claim w ids lost) s') (member : id ∈ ids) :
    id ∉ (s.workers u).holds := by
  intro held
  obtain ⟨row, here, pending, _⟩ := rows_claim moved member
  have flying := sound.inFlight u id held row here
  rw [pending] at flying
  cases flying

omit [DecidableEq W] in
theorem mem_holds_of_attempt {worker : Worker} (running : worker.attempts[index]? = some attempt) :
    attempt.row.id ∈ worker.holds :=
  (Worker.holds_leave running).mem_iff.mpr mem_cons_self

theorem minted_mono (moved : Step config s act s') (member : id ∈ s.minted) : id ∈ s'.minted := by
  rw [minted_step moved]
  exact mem_append_right _ member

section

variable (sound : Sound s)
include sound

theorem minted_row (moved : Step config s act s') (after : s'.rows id = some row)
    : id ∈ s'.minted := by
  have step := row_step moved id
  rw [after] at step
  cases before : s.rows id with
  | some earlier => exact minted_mono moved (sound.minted id earlier before)
  | none =>
    rw [before] at step
    cases step with
    | enqueued new _ =>
      rw [minted_step moved]
      exact mem_cons_self

theorem holder_held (moved : Step config s act s')
    (held : id ∈ (s.workers w).holds) : s'.holder id = some w := by
  rcases holder_step moved id with same | ⟨u, ids, lost, rfl, member, -⟩
  · rw [same]
    exact sound.holder w id held
  · exact absurd held (not_held_of_claimed sound moved member)

theorem not_held_of_recorded {jitter : Int} {written : Bool}
    (moved : Step config s (.record u index jitter written) s')
    (running : (s.workers u).attempts[index]? = some attempt) :
    attempt.row.id ∉ (s'.workers w).holds := by
  intro held
  have mine := mem_holds_of_attempt running
  rcases mem_holds_step moved held with before | ⟨ids, impossible, -⟩
  · -- both workers are the row's holder
    have same : u = w := some.inj ((sound.holder u _ mine).symm.trans (sound.holder w _ before))
    subst same
    have left : s'.workers u = (s.workers u).leave index := by
      obtain ⟨row, result, -, rfl⟩ := next_record moved
      exact Function.update_self ..
    have distinct := (Worker.holds_leave running).nodup_iff.mp (sound.distinct u)
    rw [left] at held
    exact (nodup_cons.mp distinct).1 held
  · cases impossible

theorem inFlight_held (ended : ReclaimsEnded config ⟨s, act, s'⟩)
    (moved : Step config s act s') (before : id ∈ (s.workers w).holds)
    (after : id ∈ (s'.workers w).holds) (here : s'.rows id = some row) :
    row.status = .inFlight := by
  have step := row_step moved id
  have flying := sound.inFlight w id before
  rw [here] at step
  generalize there : s.rows id = earlier at step flying
  cases step with
  | same => exact flying row rfl
  | enqueued new _ => exact absurd (sound.known w id before) new
  | replayed idle _ => exact absurd (flying _ rfl) idle
  | reclaimed late _ => exact absurd before (ended id _ there late w)
  | orphaned pending _ => cases pending.symm.trans (flying _ rfl)
  | claimed member _ _ => exact absurd before (not_held_of_claimed sound moved member)
  | recorded running names _ =>
    subst names
    exact absurd after (not_held_of_recorded sound moved running)

theorem distinct_step (moved : Step config s act s') (w : W) : (s'.workers w).holds.Nodup := by
  have step := worker_step moved w
  have distinct := sound.distinct w
  have claimedNot (ids : List String) (claims : act = .claim w ids false) (id : String)
      (member : id ∈ ids) : id ∉ (s.workers w).holds := by
    subst claims
    exact not_held_of_claimed sound moved member
  generalize s'.workers w = after at step
  cases step with
  | same _ | lost | cancelled | stopped _ _ => exact distinct
  | dispatched perm _ _ => exact perm.nodup_iff.mpr distinct
  | finished =>
    rw [Worker.holds_finish]
    exact distinct
  | @claimed ids _ rows _ _ idle fresh names =>
    simp only [Worker.holds, names]
    simp only [Worker.holds, idle] at distinct claimedNot
    refine nodup_append.mpr ⟨fresh, distinct, ?_⟩
    rintro id member _ held rfl
    exact claimedNot ids rfl id member held
  | recorded held => exact (nodup_cons.mp ((Worker.holds_leave held).nodup_iff.mp distinct)).2
  | crashed => exact nodup_nil

theorem sound_step (ended : ReclaimsEnded config ⟨s, act, s'⟩)
    (moved : Step config s act s') : Sound s' := by
  refine ⟨fun id row after => minted_row sound moved after, ?_, ?_, ?_, distinct_step sound moved⟩
  · intro w id held
    rcases mem_holds_step moved held with before | ⟨ids, rfl, member⟩
    · exact minted_mono moved (sound.known w id before)
    · obtain ⟨row, here, _⟩ := rows_claim moved member
      exact minted_mono moved (sound.minted id row here)
  · intro w id held
    rcases mem_holds_step moved held with before | ⟨ids, rfl, member⟩
    · exact holder_held sound moved before
    · obtain ⟨_, _, _, _, holder⟩ := rows_claim moved member
      exact holder
  · intro w id held row here
    rcases mem_holds_step moved held with before | ⟨ids, rfl, member⟩
    · exact inFlight_held sound ended moved before held here
    · obtain ⟨_, _, _, stamped, _⟩ := rows_claim moved member
      rw [here] at stamped
      exact congrArg DeliveryRow.status (some.inj stamped)

end

/-- A delivery that is done changes only by a replay, or goes away. -/
def KeepsDone (e : Event (World W) (Act W)) : Prop :=
  ∀ id row, e.pre.rows id = some row → row.status.done = true →
    e.post.rows id = some row ∨ e.label = .replay id ∨
      (e.post.rows id = none ∧ e.label.removes = true)

theorem keepsDone_step (sound : Sound s) (moved : Step config s act s') :
    KeepsDone ⟨s, act, s'⟩ := by
  intro id row here done
  have step := row_step moved id
  have held (w : W) (member : id ∈ (s.workers w).holds) : row.status = .inFlight :=
    sound.inFlight w id member row here
  rw [here] at step
  generalize s'.rows id = after at step
  cases step with
  | same => exact .inl rfl
  | removed removes => exact .inr (.inr ⟨rfl, removes⟩)
  | replayed _ _ => exact .inr (.inl rfl)
  | reclaimed late _ =>
    simp only [overdue, Bool.and_eq_true, decide_eq_true_eq] at late
    simp [late.1, Status.done] at done
  | orphaned pending _ | claimed _ pending _ => simp [pending, Status.done] at done
  | recorded running names _ =>
    have flying := held _ (names ▸ mem_holds_of_attempt running)
    simp [flying, Status.done] at done

def Over (id : String) (s : World W) : Prop :=
  id ∈ s.minted ∧ ∀ row, s.rows id = some row → row.status.done = true

theorem over_step (sound : Sound s) (moved : Step config s act s') (ended : Over id s)
    (untouched : act ≠ .replay id) : Over id s' := by
  refine ⟨minted_mono moved ended.1, ?_⟩
  intro row after
  cases before : s.rows id with
  | some earlier =>
    have done := ended.2 earlier before
    rcases keepsDone_step sound moved id earlier before done with kept | replayed | ⟨gone, -⟩
    · cases kept.symm.trans after
      exact done
    · exact absurd replayed untouched
    · cases gone.symm.trans after
  | none =>
    have step := row_step moved id
    rw [before, after] at step
    cases step with
    | enqueued new _ => exact absurd ended.1 new

def Act.claims (id : String) : Act W → Prop
  | .claim _ ids _ => id ∈ ids
  | _ => False

theorem not_claims_of_over (moved : Step config s act s') (ended : Over id s) : ¬act.claims id := by
  cases act with
  | claim w ids lost =>
    intro member
    obtain ⟨row, here, pending, _⟩ := rows_claim moved member
    have done := ended.2 row here
    simp [pending, Status.done] at done
  | _ => exact not_false

/-- If `Reclaim` never takes back a row that a worker holds, a delivery that is done changes only by
a replay or goes away, and is not attempted again before it is replayed. -/
theorem done_stays_done {start : World W} (initial : Initial start)
    {events : List (Event (World W) (Act W))} {s : World W} (run : Run (Step config) start events s)
    (ended : ∀ e ∈ events, ReclaimsEnded config e) :
    (∀ e ∈ events, KeepsDone e) ∧
      ∀ id row, s.rows id = some row → row.status.done = true →
        ∀ rest s', Run (Step config) s rest s' →
          (∀ e ∈ rest, ReclaimsEnded config e ∧ e.label ≠ .replay id) →
            ∀ e ∈ rest, ¬e.label.claims id := by
  have keep (s : World W) (act : Act W) (s' : World W) (sound : Sound s)
      (reclaims : ReclaimsEnded config ⟨s, act, s'⟩) (moved : Step config s act s') : Sound s' :=
    sound_step sound reclaims moved
  constructor
  · refine run.every_event (I := Sound) initial.sound keep ?_ ended
    exact fun s act s' sound _ moved => keepsDone_step sound moved
  · intro id row here done rest s' after admitted
    have sound : Sound s := run.invariant initial.sound keep ended
    have settled : Over id s := by
      refine ⟨sound.minted id row here, fun found same => ?_⟩
      cases here.symm.trans same
      exact done
    refine after.every_event (I := fun s => Sound s ∧ Over id s) ⟨sound, settled⟩ ?_ ?_ admitted
    · rintro s act s' ⟨sound, settled⟩ ⟨reclaims, untouched⟩ moved
      exact ⟨keep s act s' sound reclaims moved, over_step sound moved settled untouched⟩
    · rintro s act s' ⟨_, settled⟩ _ moved
      exact not_claims_of_over moved settled

def defaultConfig (queue : Queue) : WorkerConfig :=
  ⟨queue, 32, 8, [60, 1800, 7200, 43200], 60, false⟩

def oneDelivery : World Bool where
  now := 0
  owners := fun owner => if owner = "ci" then some true else none
  rows := fun id => if id = "d" then some (enqueued "ci" 0) else none
  minted := ["d"]
  holder := fun _ => none
  workers := fun _ => .fresh

theorem initial_oneDelivery : Initial oneDelivery := by
  refine ⟨?_, fun _ => rfl⟩
  intro id row here
  simp only [oneDelivery] at here
  split at here
  · rename_i same
    exact mem_singleton.mpr same
  · cases here

def accepted : Result := ⟨200, none⟩

def timedOut : Result := ⟨0, some ⟨[], false⟩⟩

def attempted (w : Bool) (result : Result) : List (Act Bool) :=
  [.finish w 0 result, .record w 0 0 true]

def claimOne (w : Bool) : List (Act Bool) := [.claim w ["d"] false, .dispatch w]

omit [DecidableEq W] in
theorem reclaimsEnded_of_idle {e : Event (World W) (Act W)}
    (idle : e.label = .reclaim → ∀ w, (e.pre.workers w).holds = []) : ReclaimsEnded config e := by
  unfold ReclaimsEnded
  split
  · rename_i reclaims
    intro id row _ _ w
    rw [idle reclaims w]
    exact not_mem_nil
  · trivial

/-- A delivery that is accepted in time stays delivered. -/
theorem accepted_stays_delivered :
    ∃ events s, Run (Step (defaultConfig .webhooks)) oneDelivery events s ∧
      (s.rows "d").map (·.status) = some .delivered ∧ ∀ e ∈ events, KeepsDone e := by
  obtain ⟨events, s, run, delivered, idle⟩ :=
    Run.exists_of_play (World.next (defaultConfig .webhooks)) oneDelivery
      (claimOne false ++ attempted false accepted ++ [.tick 61, .reclaim])
      (P := fun events s => (s.rows "d").map (·.status) = some .delivered ∧
        ∀ e ∈ events, e.label = .reclaim → ∀ w, (e.pre.workers w).holds = [])
      (by decide +kernel)
  have stays := done_stays_done initial_oneDelivery run fun e member =>
    reclaimsEnded_of_idle (idle e member)
  exact ⟨events, s, run, delivered, stays.1⟩

def lateFailure : List (Act Bool) :=
  claimOne false ++ [.tick 61, .reclaim] ++ claimOne true ++ attempted true accepted ++
    attempted false timedOut ++ [.tick 60] ++ claimOne true

theorem late_failure_reopens (queue : Queue) :
    ∃ events s, Run (Step (defaultConfig queue)) oneDelivery events s ∧
      (∀ e ∈ events, e.label ≠ .replay "d") ∧ (∃ e ∈ events, ¬KeepsDone e) ∧
      (s.rows "d").map (·.status) = some .inFlight := by
  obtain ⟨events, s, run, untouched, ⟨e, member, late, delivered, pending⟩, again⟩ :=
    Run.exists_of_play (World.next (defaultConfig queue)) oneDelivery lateFailure
      (P := fun events s => (∀ e ∈ events, e.label ≠ .replay "d") ∧
        (∃ e ∈ events, e.label = .record false 0 0 true ∧
          (e.pre.rows "d").map (·.status) = some .delivered ∧
          (e.post.rows "d").map (·.status) = some .pending) ∧
        (s.rows "d").map (·.status) = some .inFlight)
      (by cases queue <;> decide +kernel)
  refine ⟨events, s, run, untouched, ⟨e, member, ?_⟩, again⟩
  intro keeps
  obtain ⟨row, here, status⟩ := map_eq_some_iff.mp delivered
  have done : row.status.done = true := by rw [status]; rfl
  rcases keeps "d" row here done with same | replayed | ⟨gone, -⟩
  · rw [same] at pending
    cases status.symm.trans (some.inj pending)
  · cases late.symm.trans replayed
  · rw [gone] at pending
    cases pending

/-- In either queue. -/
theorem late_failure_reopens_delivery :
    (∃ events s, Run (Step (defaultConfig .webhooks)) oneDelivery events s ∧
      (∀ e ∈ events, e.label ≠ .replay "d") ∧ (∃ e ∈ events, ¬KeepsDone e) ∧
      (s.rows "d").map (·.status) = some .inFlight) ∧
    (∃ events s, Run (Step (defaultConfig .buildTriggers)) oneDelivery events s ∧
      (∀ e ∈ events, e.label ≠ .replay "d") ∧ (∃ e ∈ events, ¬KeepsDone e) ∧
      (s.rows "d").map (·.status) = some .inFlight) :=
  ⟨late_failure_reopens .webhooks, late_failure_reopens .buildTriggers⟩

/-! What a worker leaves behind when `StartWorker` returns. -/

/-- The statements of worker `w` succeed where their context is not cancelled, a claim that took
effect returns its rows, and the build trigger worker is cancelled only between two batches. -/
def Graceful (config : WorkerConfig) (w : W) (e : Event (World W) (Act W)) : Prop :=
  match e.label with
  | .claim u _ lost => u = w → lost = false
  | .record u _ _ written => u = w → written = true
  | .cancel u => u = w → config.queue = .buildTriggers → (e.pre.workers w).holds = []
  | _ => True

/-- The rows in flight that `w` claimed last are those it holds. -/
structure Owes (config : WorkerConfig) (w : W) (s : World W) : Prop where
  owed : (s.workers w).loop ≠ .crashed → ∀ id row, s.rows id = some row → row.status = .inFlight →
    s.holder id = some w → id ∈ (s.workers w).holds
  drained : (s.workers w).loop = .returned → (s.workers w).holds = []
  attached : config.queue = .buildTriggers → (s.workers w).cancelled = true →
    (s.workers w).holds = []

omit [DecidableEq W] in
theorem not_running_of_empty {worker : Worker} {index : ℕ} {attempt : Attempt}
    (running : worker.attempts[index]? = some attempt) : worker.holds ≠ [] :=
  ne_nil_of_mem (mem_holds_of_attempt running)

omit [DecidableEq W] in
theorem Owes.recordable (owes : Owes config w s) {index : ℕ} {attempt : Attempt}
    (running : (s.workers w).attempts[index]? = some attempt) : s.recordable config w = true := by
  cases kind : config.queue with
  | webhooks => simp [World.recordable, kind]
  | buildTriggers =>
    cases cancelled : (s.workers w).cancelled with
    | true => exact absurd (owes.attached kind cancelled) (not_running_of_empty running)
    | false => simp [World.recordable, kind, cancelled]

theorem held_step (owes : Owes config w s) (graceful : Graceful config w ⟨s, act, s'⟩)
    (moved : Step config s act s') (alive : (s'.workers w).loop ≠ .crashed) {id : String}
    {row : DeliveryRow} (after : s'.rows id = some row) (flying : row.status = .inFlight)
    (held : id ∈ (s.workers w).holds) : id ∈ (s'.workers w).holds := by
  have step := worker_step moved w
  have recorded (index : ℕ) (jitter : Int) (written : Bool) (attempt : Attempt)
      (same : act = .record w index jitter written)
      (running : (s.workers w).attempts[index]? = some attempt) : attempt.row.id ≠ id := by
    subst same
    obtain rfl : written = true := graceful rfl
    rintro rfl
    exact rows_record moved (owes.recordable running) running after flying
  generalize s'.workers w = later at step alive
  cases step with
  | same _ => exact held
  | dispatched perm _ _ => exact perm.mem_iff.mpr held
  | finished => rwa [Worker.holds_finish]
  | claimed _ _ idle _ _ =>
    simp only [Worker.holds, idle] at held
    exact mem_append_right _ held
  | lost => exact held
  | recorded running =>
    rcases mem_cons.mp ((Worker.holds_leave running).mem_iff.mp held) with this | kept
    · exact absurd this.symm (recorded _ _ _ _ rfl running)
    · exact kept
  | cancelled => exact held
  | stopped _ _ => exact held
  | crashed => exact absurd rfl alive

theorem alive_before (moved : Step config s act s') (alive : (s'.workers w).loop ≠ .crashed) :
    (s.workers w).loop ≠ .crashed := by
  have step := worker_step moved w
  generalize s'.workers w = later at step alive
  cases step with
  | dispatched _ loop _ => rwa [← loop]
  | stopped running _ => simp [running]
  | crashed => exact absurd rfl alive
  | _ => exact alive

theorem owed_step (owes : Owes config w s) (graceful : Graceful config w ⟨s, act, s'⟩)
    (moved : Step config s act s') (alive : (s'.workers w).loop ≠ .crashed) {id : String}
    {row : DeliveryRow} (after : s'.rows id = some row) (flying : row.status = .inFlight)
    (mine : s'.holder id = some w) : id ∈ (s'.workers w).holds := by
  have step := row_step moved id
  rw [after] at step
  generalize there : s.rows id = earlier at step
  cases step with
  | same =>
    -- the row was in flight before, so the step did not claim it
    have before : s.holder id = some w := by
      rcases holder_step moved id with same | ⟨u, ids, lost, rfl, member, -⟩
      · rwa [← same]
      · obtain ⟨found, here, pending, -⟩ := rows_claim moved member
        cases there.symm.trans here
        cases pending.symm.trans flying
    have held := owes.owed (alive_before moved alive) id row there flying before
    exact held_step owes graceful moved alive after flying held
  | enqueued _ pending | replayed _ pending | reclaimed _ pending => cases pending.symm.trans flying
  | orphaned _ dead => cases dead.symm.trans flying
  | @claimed u ids lost earlier _ member _ _ =>
    obtain ⟨_, _, _, _, holder⟩ := rows_claim moved member
    cases holder.symm.trans mine
    obtain rfl : lost = false := graceful rfl
    have step := worker_step moved w
    generalize s'.workers w = later at step
    cases step with
    | same other => exact absurd rfl other
    | claimed _ _ _ _ names => exact mem_append_left _ (names ▸ member)
  | recorded _ _ landed => exact absurd flying landed

theorem owes_step (owes : Owes config w s) (graceful : Graceful config w ⟨s, act, s'⟩)
    (moved : Step config s act s') : Owes config w s' := by
  refine ⟨fun alive id row after flying mine =>
    owed_step owes graceful moved alive after flying mine, ?_, ?_⟩
  · intro returned
    have step := worker_step moved w
    have drained := owes.drained
    generalize s'.workers w = later at step returned
    cases step with
    | same _ | lost | cancelled => exact drained returned
    | dispatched perm loop _ =>
      rw [drained (loop ▸ returned)] at perm
      exact perm.eq_nil
    | finished =>
      rw [Worker.holds_finish]
      exact drained returned
    | claimed running _ _ _ _ => cases running.symm.trans returned
    | recorded running => exact absurd (drained returned) (not_running_of_empty running)
    | stopped _ empty => exact empty
    | crashed => rfl
  · intro kind cancelled
    have step := worker_step moved w
    have attached := owes.attached kind
    have kept (ids : List String) : act ≠ .claim w ids true := by
      rintro rfl
      cases (graceful rfl : true = false)
    have between (same : act = .cancel w) : (s.workers w).holds = [] := by
      subst same
      exact graceful rfl kind
    generalize s'.workers w = later at step cancelled
    cases step with
    | same _ => exact attached cancelled
    | dispatched perm _ same =>
      rw [attached (same ▸ cancelled)] at perm
      exact perm.eq_nil
    | finished =>
      rw [Worker.holds_finish]
      exact attached cancelled
    | claimed _ live _ _ _ => cases live.symm.trans cancelled
    | @lost ids => exact absurd rfl (kept ids)
    | recorded running => exact absurd (attached cancelled) (not_running_of_empty running)
    | cancelled => exact between rfl
    | stopped _ empty => exact empty
    | crashed => rfl

/-- When `StartWorker` has returned, no row that it claimed last is in flight. -/
theorem shutdown_drains {start : World W} (begins : start.workers w = .fresh)
    (unclaimed : ∀ id, start.holder id ≠ some w) {events : List (Event (World W) (Act W))}
    {s : World W} (run : Run (Step config) start events s)
    (graceful : ∀ e ∈ events, Graceful config w e) (returned : (s.workers w).loop = .returned)
    {id : String} {row : DeliveryRow} (here : s.rows id = some row) (mine : s.holder id = some w) :
    row.status ≠ .inFlight := by
  have initial : Owes config w start := by
    refine ⟨fun _ id row _ _ claimed => absurd claimed (unclaimed id), ?_, ?_⟩ <;>
      simp [begins, Worker.fresh]
  have owes : Owes config w s := by
    refine run.invariant initial ?_ graceful
    exact fun s act s' owes kept moved => owes_step owes kept moved
  intro flying
  have held := owes.owed (by simp [returned]) id row here flying mine
  rw [owes.drained returned] at held
  cases held

def cancelledAttempt : List (Act Bool) :=
  claimOne false ++ [.cancel false] ++ attempted false accepted ++ [.stop false]

instance (config : WorkerConfig) (e : Event (World W) (Act W)) (w : W) :
    Decidable (Graceful config w e) := by
  unfold Graceful
  split <;> infer_instance

/-- The webhook worker writes the result of the attempt before it returns. -/
theorem webhook_result_written :
    ∃ events s, Run (Step (defaultConfig .webhooks)) oneDelivery events s ∧
      (s.workers false).loop = .returned ∧
      ∃ row, s.rows "d" = some row ∧ s.holder "d" = some false ∧ row.status ≠ .inFlight := by
  obtain ⟨events, s, run, graceful, returned, found, mine⟩ :=
    Run.exists_of_play (World.next (defaultConfig .webhooks)) oneDelivery cancelledAttempt
      (P := fun events s => (∀ e ∈ events, Graceful (defaultConfig .webhooks) false e) ∧
        (s.workers false).loop = .returned ∧ (s.rows "d").isSome ∧ s.holder "d" = some false)
      (by decide +kernel)
  obtain ⟨row, here⟩ := isSome_iff_exists.mp found
  refine ⟨events, s, run, returned, row, here, mine, ?_⟩
  exact shutdown_drains rfl (by simp [oneDelivery]) run graceful returned here mine

def Succeeds (w : W) (e : Event (World W) (Act W)) : Prop :=
  match e.label with
  | .record u _ _ written => u = w → written = true
  | _ => True

instance (e : Event (World W) (Act W)) (w : W) : Decidable (Succeeds w e) := by
  unfold Succeeds
  split <;> infer_instance

def LeftInFlight (s : World Bool) : Prop :=
  (s.workers false).loop = .returned ∧ s.holder "d" = some false ∧
    (s.rows "d").map (·.status) = some .inFlight

instance (s : World Bool) : Decidable (LeftInFlight s) :=
  inferInstanceAs (Decidable (_ ∧ _ ∧ _))

def nodesConfig : WorkerConfig := { defaultConfig .webhooks with supportsSkipLocked := true }

/-- The same run of the build trigger worker leaves the row in flight; and so does a webhook worker
that is cancelled while its claim is on its way back. -/
theorem cancelled_worker_leaves_row :
    (∃ events s, Run (Step (defaultConfig .buildTriggers)) oneDelivery events s ∧
        (∀ e ∈ events, Succeeds false e) ∧ LeftInFlight s) ∧
      ∃ events s, Run (Step nodesConfig) oneDelivery events s ∧
        (∀ e ∈ events, Succeeds false e) ∧ LeftInFlight s := by
  constructor
  · exact Run.exists_of_play (World.next (defaultConfig .buildTriggers)) oneDelivery cancelledAttempt
      (P := fun events s => (∀ e ∈ events, Succeeds false e) ∧ LeftInFlight s) (by decide +kernel)
  · exact Run.exists_of_play (World.next nodesConfig) oneDelivery
      [.claim false ["d"] true, .stop false]
      (P := fun events s => (∀ e ∈ events, Succeeds false e) ∧ LeftInFlight s) (by decide +kernel)

end BucketVcs.Deliveries
