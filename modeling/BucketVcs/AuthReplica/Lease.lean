import Mathlib.Algebra.Order.Ring.Int
import BucketVcs.Lib.Cell
import BucketVcs.Lib.Run

/-! The lease that guards the replication of the credential database, and the instances that
acquire, renew and release it, one step for each request to the store. -/

namespace BucketVcs.AuthReplica

open Conditional List Option

/-- Durations and instants are in nanoseconds. -/
def second : ℤ := 1000000000

def defaultLeaseTTL : ℤ := 60 * second

def leaseTTL (configured : ℤ) : ℤ := if configured ≤ 0 then defaultLeaseTTL else configured

/-- The body of `lease.json`, without the host and the process it names in messages. -/
structure LeaseDoc (I : Type) where
  instanceID : I
  renewedAt : ℤ
  ttlSeconds : ℤ
  deriving DecidableEq

def LeaseDoc.expiry {I : Type} (doc : LeaseDoc I) : ℤ := doc.renewedAt + doc.ttlSeconds * second

/-- `Lease.body`; the time to live is cut to whole seconds. -/
def body {I : Type} (configured : I → ℤ) (i : I) (now : ℤ) : LeaseDoc I :=
  ⟨i, now, leaseTTL (configured i) / second⟩

def acquireAttempts : ℕ := 4

structure Hold (I : Type) where
  version : ℕ
  doc : LeaseDoc I
  deriving DecidableEq

/-- Where an instance stands in `Prepare`, `StartReplication`, `heartbeat` and `Close`. -/
inductive Phase (I : Type) where
  | idle
  /-- Before `PutIfAbsent`, before `Get` and before the takeover in `Acquire`. -/
  | creating (attempt : ℕ) (doc : LeaseDoc I)
  | reading (attempt : ℕ) (doc : LeaseDoc I)
  | takingOver (doc : LeaseDoc I) (version : ℕ)
  /-- The lease is acquired; the database is restored and opened. -/
  | prepared (hold : Hold I)
  | replicating (hold : Hold I)
  /-- The same, while the heartbeat renews. -/
  | renewing (hold : Hold I) (doc : LeaseDoc I)
  /-- The store is being closed, after the lease was lost or in `Close`. -/
  | stopping (hold : Hold I)
  | closing (hold : Hold I)
  | releasing (hold : Hold I)
  | stopped
  | ended
  deriving DecidableEq

namespace Phase

variable {I : Type}

def hold : Phase I → Option (Hold I)
  | .prepared hold | .replicating hold | .renewing hold _ | .stopping hold | .closing hold
  | .releasing hold => some hold
  | _ => none

def replicates : Phase I → Bool
  | .replicating _ | .renewing _ _ | .stopping _ | .closing _ => true
  | _ => false

end Phase

structure Shared (I : Type) where
  now : ℤ
  lease : Cell (LeaseDoc I)

inductive Act where
  | tick (nanoseconds : ℕ)
  | prepare
  | create
  | read
  | takeOver
  | openStore
  | heartbeat
  | renew
  | close
  | closed
  | release
  /-- The request to the store fails, and its effect took place or not. -/
  | fail (applied : Bool)
  /-- `Close` cancels a renewal under way. -/
  | cancel (applied : Bool)
  | crash
  deriving DecidableEq, Repr

section Steps

variable {I : Type} (configured : I → ℤ) (i : I) (σ : Shared I)

def Shared.write (lease : Cell (LeaseDoc I)) : Shared I := { σ with lease }

def pending : Phase I → Cell (LeaseDoc I)
  | .creating _ doc => ((σ.lease.putIfAbsent doc).toOption.map Prod.snd).getD σ.lease
  | .takingOver doc version =>
    ((σ.lease.putIfVersionMatches version doc).toOption.map Prod.snd).getD σ.lease
  | .renewing hold doc =>
    ((σ.lease.putIfVersionMatches hold.version doc).toOption.map Prod.snd).getD σ.lease
  | .releasing hold => (σ.lease.deleteIfVersionMatches hold.version).toOption.getD σ.lease
  | _ => σ.lease

/-- The phase after a request failed: only a renewal is tried again. -/
def afterFailure : Phase I → Option (Phase I)
  | .creating _ _ | .reading _ _ | .takingOver _ _ | .releasing _ => some .ended
  | .renewing hold _ => some (.replicating hold)
  | _ => none

/-- `Acquire` up to the takeover: what `Get` returned decides. -/
def afterRead (attempt : ℕ) (doc : LeaseDoc I) : Phase I :=
  match σ.lease.object with
  | none =>
    if attempt + 1 < acquireAttempts then .creating (attempt + 1) (body configured i σ.now)
    else .ended
  | some (found, version) => if σ.now < found.expiry then .ended else .takingOver doc version

def advance (phase : Phase I) : Act → Option (Shared I × Phase I)
  | .tick nanoseconds => some ({ σ with now := σ.now + nanoseconds }, phase)
  | .prepare =>
    match phase with
    | .idle => some (σ, .creating 0 (body configured i σ.now))
    | _ => none
  | .create =>
    match phase with
    | .creating attempt doc =>
      match σ.lease.putIfAbsent doc with
      | .ok (version, lease) => some (σ.write lease, .prepared ⟨version, doc⟩)
      | .error _ => some (σ, .reading attempt doc)
    | _ => none
  | .read =>
    match phase with
    | .reading attempt doc => some (σ, afterRead configured i σ attempt doc)
    | _ => none
  | .takeOver =>
    match phase with
    | .takingOver doc version =>
      match σ.lease.putIfVersionMatches version doc with
      | .ok (version, lease) => some (σ.write lease, .prepared ⟨version, doc⟩)
      | .error _ => some (σ, .ended)
    | _ => none
  | .openStore =>
    match phase with
    | .prepared hold => some (σ, .replicating hold)
    | _ => none
  | .heartbeat =>
    match phase with
    | .replicating hold => some (σ, .renewing hold (body configured i σ.now))
    | _ => none
  | .renew =>
    match phase with
    | .renewing hold doc =>
      match σ.lease.putIfVersionMatches hold.version doc with
      | .ok (version, lease) => some (σ.write lease, .replicating ⟨version, doc⟩)
      | .error _ => some (σ, .stopping hold)
    | _ => none
  | .close =>
    match phase with
    | .prepared hold => some (σ, .releasing hold)
    | .replicating hold => some (σ, .closing hold)
    | .stopped => some (σ, .ended)
    | _ => none
  | .closed =>
    match phase with
    | .stopping _ => some (σ, .stopped)
    | .closing hold => some (σ, .releasing hold)
    | _ => none
  | .release =>
    match phase with
    | .releasing hold => some (σ.write (pending σ (.releasing hold)), .ended)
    | _ => none
  | .fail applied =>
    (afterFailure phase).map fun next => (if applied then σ.write (pending σ phase) else σ, next)
  | .cancel applied =>
    match phase with
    | .renewing hold _ =>
      some (if applied then σ.write (pending σ phase) else σ, .closing hold)
    | _ => none
  | .crash => some (σ, .ended)

def Move (i : I) (σ : Shared I) (phase : Phase I) (act : Act) (σ' : Shared I) (phase' : Phase I) : Prop :=
  advance configured i σ phase act = some (σ', phase')

/-- The steps of `advance`, one by one. -/
inductive Turn : Phase I → Act → Shared I → Phase I → Prop where
  | tick {phase} (nanoseconds : ℕ) :
    Turn phase (.tick nanoseconds) { σ with now := σ.now + nanoseconds } phase
  | prepare : Turn .idle .prepare σ (.creating 0 (body configured i σ.now))
  | create {attempt doc given lease} (put : σ.lease.putIfAbsent doc = .ok (given, lease)) :
    Turn (.creating attempt doc) .create (σ.write lease) (.prepared ⟨given, doc⟩)
  | present {attempt doc} : Turn (.creating attempt doc) .create σ (.reading attempt doc)
  | read {attempt doc} :
    Turn (.reading attempt doc) .read σ (afterRead configured i σ attempt doc)
  | takeOver {doc version given lease}
    (put : σ.lease.putIfVersionMatches version doc = .ok (given, lease)) :
    Turn (.takingOver doc version) .takeOver (σ.write lease) (.prepared ⟨given, doc⟩)
  | overtaken {doc version} : Turn (.takingOver doc version) .takeOver σ .ended
  | openStore {hold} : Turn (.prepared hold) .openStore σ (.replicating hold)
  | heartbeat {hold} :
    Turn (.replicating hold) .heartbeat σ (.renewing hold (body configured i σ.now))
  | renew {hold doc given lease}
    (put : σ.lease.putIfVersionMatches hold.version doc = .ok (given, lease)) :
    Turn (.renewing hold doc) .renew (σ.write lease) (.replicating ⟨given, doc⟩)
  | lost {hold doc} : Turn (.renewing hold doc) .renew σ (.stopping hold)
  | closePrepared {hold} : Turn (.prepared hold) .close σ (.releasing hold)
  | closeStore {hold} : Turn (.replicating hold) .close σ (.closing hold)
  | closeStopped : Turn .stopped .close σ .ended
  | storeStopped {hold} : Turn (.stopping hold) .closed σ .stopped
  | storeClosed {hold} : Turn (.closing hold) .closed σ (.releasing hold)
  | release {hold} :
    Turn (.releasing hold) .release (σ.write (pending σ (.releasing hold))) .ended
  | fail {phase next} (applied : Bool) (after : afterFailure phase = some next) :
    Turn phase (.fail applied) (if applied then σ.write (pending σ phase) else σ) next
  | cancel {hold doc} (applied : Bool) : Turn (.renewing hold doc) (.cancel applied)
      (if applied then σ.write (pending σ (.renewing hold doc)) else σ) (.closing hold)
  | crash {phase} : Turn phase .crash σ .ended

variable {configured i σ}

theorem Move.turn {σ' : Shared I} {phase phase' : Phase I} {act : Act}
    (moved : Move configured i σ phase act σ' phase') : Turn configured i σ phase act σ' phase' := by
  cases act with
  | fail applied =>
    obtain ⟨next, after, result⟩ := map_eq_some_iff.mp moved
    cases result
    exact .fail applied after
  | cancel applied =>
    cases phase with
    | renewing hold doc =>
      cases moved
      exact .cancel applied
    | _ => cases moved
  | _ =>
    simp only [Move, advance] at moved
    repeat' split at moved
    all_goals cases moved <;> constructor <;> assumption

end Steps

/-! Who may replace the lease, and when two instances cannot both replicate. -/

open Interleave Transition

section Invariant

variable {I : Type} (configured : I → ℤ) (i : I) (σ : Shared I)

def Written (doc : LeaseDoc I) : Prop := ∃ t ≤ σ.now, doc = body configured i t

/-- A lease that an instance may replace: its own, or one that has expired. -/
def MayReplace (doc : LeaseDoc I) : Prop := doc.instanceID = i ∨ doc.expiry ≤ σ.now

structure Guarantee (σ' : Shared I) : Prop where
  clock : σ.now ≤ σ'.now
  lease : Changed (MayReplace i σ) (fun doc => doc.instanceID = i) σ.lease σ'.lease

/-- An instance that wrote a lease: it is still there in some version, or has expired. -/
structure HoldSound (hold : Hold I) : Prop where
  written : Written configured i σ hold.doc
  given : hold.version < σ.lease.next
  mine : ∀ doc, σ.lease.object = some (doc, hold.version) → doc.instanceID = i
  stands : hold.doc.expiry ≤ σ.now ∨ ∃ doc version, σ.lease.object = some (doc, version) ∧
    doc.instanceID = i ∧ hold.doc.expiry ≤ doc.expiry

def Local : Phase I → Prop
  | .idle | .stopped | .ended => True
  | .creating _ doc | .reading _ doc => Written configured i σ doc
  | .takingOver doc version =>
    Written configured i σ doc ∧ version < σ.lease.next ∧
      ∀ found, σ.lease.object = some (found, version) → found.expiry ≤ σ.now
  | .renewing hold doc =>
    HoldSound configured i σ hold ∧ Written configured i σ doc ∧ hold.doc.expiry ≤ doc.expiry
  | .prepared hold | .replicating hold | .stopping hold | .closing hold | .releasing hold =>
    HoldSound configured i σ hold

end Invariant

section Keeping

variable {I : Type} {configured : I → ℤ} {i j : I} {σ σ' : Shared I}

variable {doc : LeaseDoc I} {hold : Hold I} {phase : Phase I} {now : ℤ}

theorem Written.mono (written : Written configured i σ doc) (later : σ.now ≤ σ'.now) :
    Written configured i σ' doc := by
  obtain ⟨t, past, rfl⟩ := written
  exact ⟨t, past.trans later, rfl⟩

theorem Written.instanceID (written : Written configured i σ doc) : doc.instanceID = i := by
  obtain ⟨t, _, rfl⟩ := written
  rfl

theorem written_now : Written configured i σ (body configured i σ.now) := ⟨σ.now, le_rfl, rfl⟩

theorem Written.expiry_le (written : Written configured i σ doc) :
    doc.expiry ≤ (body configured i σ.now).expiry := by
  obtain ⟨t, past, rfl⟩ := written
  exact add_le_add_left past _

theorem HoldSound.other (sound : HoldSound configured j σ hold) (different : j ≠ i)
    (step : Guarantee i σ σ') : HoldSound configured j σ' hold where
  written := sound.written.mono step.clock
  given := lt_of_lt_of_le sound.given step.lease.next_le
  mine := fun doc found => sound.mine doc (step.lease.of_old sound.given found)
  stands := by
    rcases sound.stands with expired | ⟨doc, version, found, mine, below⟩
    · exact .inl (expired.trans step.clock)
    · by_cases expired : doc.expiry ≤ σ.now
      · exact .inl ((below.trans expired).trans step.clock)
      · -- neither its own nor expired for the other one, so it stays
        refine .inr ⟨doc, version, step.lease.kept found ?_, mine, below⟩
        rintro (taken | gone)
        · exact different (mine.symm.trans taken)
        · exact expired gone

theorem Local.other (sound : Local configured j σ phase) (different : j ≠ i)
    (step : Guarantee i σ σ') : Local configured j σ' phase := by
  cases phase with
  | idle => trivial
  | stopped => trivial
  | ended => trivial
  | creating attempt doc | reading attempt doc => exact .mono sound step.clock
  | takingOver doc version =>
    obtain ⟨written, given, expired⟩ := sound
    refine ⟨written.mono step.clock, lt_of_lt_of_le given step.lease.next_le, fun found present => ?_⟩
    exact (expired found (step.lease.of_old given present)).trans step.clock
  | renewing hold doc =>
    exact ⟨sound.1.other different step, sound.2.1.mono step.clock, sound.2.2⟩
  | prepared hold | replicating hold | stopping hold | closing hold | releasing hold =>
    exact .other sound different step

theorem HoldSound.wait (sound : HoldSound configured i σ hold) (later : σ.now ≤ now) :
    HoldSound configured i { σ with now } hold where
  written := sound.written.mono later
  given := sound.given
  mine := sound.mine
  stands := sound.stands.imp_left fun expired => expired.trans later

theorem Local.wait (sound : Local configured i σ phase) (later : σ.now ≤ now) :
    Local configured i { σ with now } phase := by
  cases phase with
  | idle => trivial
  | stopped => trivial
  | ended => trivial
  | creating attempt doc | reading attempt doc => exact .mono sound later
  | takingOver doc version =>
    exact ⟨sound.1.mono later, sound.2.1, fun found present => (sound.2.2 found present).trans later⟩
  | renewing hold doc => exact ⟨sound.1.wait later, sound.2.1.mono later, sound.2.2⟩
  | prepared hold | replicating hold | stopping hold | closing hold | releasing hold =>
    exact .wait sound later

theorem holdSound_put (written : Written configured i σ doc) :
    HoldSound configured i (σ.write (σ.lease.put doc)) ⟨σ.lease.next, doc⟩ where
  written := written
  given := Nat.lt_succ_self _
  mine := by
    intro found present
    cases present
    exact written.instanceID
  stands := .inr ⟨doc, σ.lease.next, rfl, written.instanceID, le_rfl⟩

theorem HoldSound.renewed (sound : HoldSound configured i σ hold)
    (written : Written configured i σ doc) (below : hold.doc.expiry ≤ doc.expiry) :
    HoldSound configured i (σ.write (σ.lease.put doc)) hold where
  written := sound.written
  given := lt_of_lt_of_le sound.given (Nat.le_succ _)
  mine := by
    intro found present
    obtain rfl : doc = found := congrArg Prod.fst (some.inj present)
    exact written.instanceID
  stands := .inr ⟨doc, σ.lease.next, rfl, written.instanceID, below⟩

attribute [local simp] Except.toOption pending

theorem changed_pending (sound : Local configured i σ phase) :
    Changed (MayReplace i σ) (fun doc => doc.instanceID = i) σ.lease (pending σ phase) := by
  cases phase with
  | creating attempt doc =>
    cases outcome : σ.lease.putIfAbsent doc with
    | error fault => simpa [outcome] using .left
    | ok result =>
      obtain ⟨absent, _, after⟩ := Cell.putIfAbsent_ok outcome
      simp only [pending, outcome, Except.toOption, map_some, after]
      refine .put (fun old version found => ?_) (Written.instanceID sound)
      rw [absent] at found
      cases found
  | takingOver doc version =>
    cases outcome : σ.lease.putIfVersionMatches version doc with
    | error fault => simpa [outcome] using .left
    | ok result =>
      obtain ⟨⟨old, present⟩, _, after⟩ := Cell.putIfVersionMatches_ok outcome
      simp only [pending, outcome, Except.toOption, map_some, after]
      refine .put (fun other version' found => .inr ?_) sound.1.instanceID
      rw [present] at found
      cases found
      exact sound.2.2 old present
  | renewing hold doc =>
    cases outcome : σ.lease.putIfVersionMatches hold.version doc with
    | error fault => simpa [outcome] using .left
    | ok result =>
      obtain ⟨⟨old, present⟩, _, after⟩ := Cell.putIfVersionMatches_ok outcome
      simp only [pending, outcome, Except.toOption, map_some, after]
      refine .put (fun other version found => .inl ?_) sound.2.1.instanceID
      rw [present] at found
      cases found
      exact sound.1.mine old present
  | releasing hold =>
    cases outcome : σ.lease.deleteIfVersionMatches hold.version with
    | error fault => simpa [outcome] using .left
    | ok after =>
      obtain ⟨⟨old, present⟩, rfl⟩ := Cell.deleteIfVersionMatches_ok outcome
      simp only [pending, outcome]
      refine .deleted fun other version found => .inl ?_
      rw [present] at found
      cases found
      exact HoldSound.mine sound old present
  | _ => exact .left

theorem guarantee_pending (sound : Local configured i σ phase) :
    Guarantee i σ (σ.write (pending σ phase)) := ⟨le_rfl, changed_pending sound⟩

theorem guarantee_refl : Guarantee i σ σ := ⟨le_rfl, .left⟩

theorem holdSound_pending (sound : Local configured i σ (.renewing hold doc)) :
    HoldSound configured i (σ.write (pending σ (.renewing hold doc))) hold := by
  cases outcome : σ.lease.putIfVersionMatches hold.version doc with
  | error fault => simpa [outcome, Shared.write] using sound.1
  | ok result =>
    obtain ⟨_, _, after⟩ := Cell.putIfVersionMatches_ok outcome
    simp only [pending, outcome, Except.toOption, map_some, after]
    exact sound.1.renewed sound.2.1 sound.2.2

theorem guarantee_failed (sound : Local configured i σ phase) (applied : Bool) :
    Guarantee i σ (if applied then σ.write (pending σ phase) else σ) := by
  cases applied with
  | true => exact guarantee_pending sound
  | false => exact guarantee_refl

theorem holdSound_failed (sound : Local configured i σ (.renewing hold doc)) (applied : Bool) :
    HoldSound configured i (if applied then σ.write (pending σ (.renewing hold doc)) else σ) hold := by
  cases applied with
  | true => exact holdSound_pending sound
  | false => exact sound.1

theorem local_afterRead {attempt : ℕ} (fresh : σ.lease.Fresh) (written : Written configured i σ doc) :
    Local configured i σ (afterRead configured i σ attempt doc) := by
  unfold afterRead
  split
  · split
    · exact written_now
    · trivial
  · rename_i found version present
    split
    · trivial
    · rename_i expired
      refine ⟨written, fresh found version present, fun other same => ?_⟩
      rw [present] at same
      cases same
      exact not_lt.mp expired

variable {phase' : Phase I} {act : Act}

/-- One step of an instance keeps its own invariant and replaces nothing that another
instance holds. -/
theorem local_move (fresh : σ.lease.Fresh) (sound : Local configured i σ phase)
    (moved : Move configured i σ phase act σ' phase') :
    Local configured i σ' phase' ∧ Guarantee i σ σ' := by
  have changed := guarantee_pending sound
  cases moved.turn with
  | tick nanoseconds =>
    have later : σ.now ≤ σ.now + nanoseconds := le_add_of_nonneg_right (Int.natCast_nonneg _)
    exact ⟨sound.wait later, later, .left⟩
  | prepare => exact ⟨written_now, guarantee_refl⟩
  | create put =>
    obtain ⟨_, given, after⟩ := Cell.putIfAbsent_ok put
    simp only [pending, put] at changed
    refine ⟨?_, changed⟩
    rw [given, after]
    exact holdSound_put sound
  | takeOver put =>
    obtain ⟨_, given, after⟩ := Cell.putIfVersionMatches_ok put
    simp only [pending, put] at changed
    refine ⟨?_, changed⟩
    rw [given, after]
    exact holdSound_put sound.1
  | renew put =>
    obtain ⟨_, given, after⟩ := Cell.putIfVersionMatches_ok put
    simp only [pending, put] at changed
    refine ⟨?_, changed⟩
    rw [given, after]
    exact holdSound_put sound.2.1
  | read => exact ⟨local_afterRead fresh sound, guarantee_refl⟩
  | heartbeat =>
    exact ⟨⟨sound, written_now, HoldSound.written sound |>.expiry_le⟩, guarantee_refl⟩
  | lost => exact ⟨sound.1, guarantee_refl⟩
  | present | openStore | closePrepared | closeStore | storeClosed => exact ⟨sound, guarantee_refl⟩
  | overtaken | closeStopped | storeStopped | crash => exact ⟨trivial, guarantee_refl⟩
  | release => exact ⟨trivial, changed⟩
  | fail applied after =>
    refine ⟨?_, guarantee_failed sound applied⟩
    cases phase with
    | renewing hold doc =>
      cases after
      exact holdSound_failed sound applied
    | creating attempt doc | reading attempt doc | takingOver doc version | releasing hold =>
      cases after
      trivial
    | _ => cases after
  | cancel applied => exact ⟨holdSound_failed sound applied, guarantee_failed sound applied⟩

end Keeping

section Runs

variable {I : Type} [DecidableEq I] {configured : I → ℤ}

def Act.elapsed : Act → ℤ
  | .tick nanoseconds => nanoseconds
  | _ => 0

/-- An instance that replicates through the step, or opens its store with it, knows to have
written a lease that does not expire by then. -/
def InTime (e : Event (System I (Shared I) (Phase I)) (I × Act)) : Prop :=
  ∀ i hold, (e.pre.threads i).hold = some hold →
    ((e.pre.threads i).replicates = true ∨ e.label = (i, .openStore)) →
    e.pre.shared.now + e.label.2.elapsed < hold.doc.expiry

def Current (now : ℤ) (phase : Phase I) : Prop :=
  ∀ hold, phase.hold = some hold → phase.replicates = true → now < hold.doc.expiry

variable {i : I} {σ σ' : Shared I} {phase phase' : Phase I} {act : Act}
  {s : System I (Shared I) (Phase I)}

omit [DecidableEq I] in
theorem now_move (moved : Move configured i σ phase act σ' phase') :
    σ'.now = σ.now + act.elapsed := by
  cases moved.turn with
  | tick nanoseconds => rfl
  | fail applied | cancel applied => cases applied <;> exact (add_zero _).symm
  | _ => exact (add_zero _).symm

omit [DecidableEq I] in
/-- An instance comes to replicate by opening its store, and goes on with a lease that expires
no earlier. -/
theorem replicates_move {hold' : Hold I} (sound : Local configured i σ phase)
    (moved : Move configured i σ phase act σ' phase') (held : phase'.hold = some hold')
    (replicates : phase'.replicates = true) :
    ∃ hold, phase.hold = some hold ∧ (phase.replicates = true ∨ act = .openStore) ∧
      hold.doc.expiry ≤ hold'.doc.expiry := by
  cases moved.turn with
  | tick nanoseconds => exact ⟨hold', held, .inl replicates, le_rfl⟩
  | openStore =>
    cases held
    exact ⟨_, rfl, .inr rfl, le_rfl⟩
  | heartbeat | lost | closeStore | cancel applied =>
    cases held
    exact ⟨_, rfl, .inl rfl, le_rfl⟩
  | renew put =>
    cases held
    exact ⟨_, rfl, .inl rfl, sound.2.2⟩
  | fail applied after =>
    cases phase with
    | renewing hold doc =>
      cases after
      cases held
      exact ⟨_, rfl, .inl rfl, le_rfl⟩
    | _ => cases after <;> cases replicates
  | read =>
    unfold afterRead at replicates
    repeat' split at replicates
    all_goals cases replicates
  | _ => cases replicates

theorem safe_of_run {start : System I (Shared I) (Phase I)}
    {events : List (Event (System I (Shared I) (Phase I)) (I × Act))}
    (fresh : start.shared.lease.Fresh) (idle : ∀ i, start.threads i = .idle)
    (run : Run (Step (Move configured)) start events s) :
    Safe (fun σ => σ.lease.Fresh) (Local configured) s := by
  have init : Safe (fun σ : Shared I => σ.lease.Fresh) (Local configured) start := by
    refine ⟨fresh, fun i => ?_⟩
    rw [idle i]
    trivial
  have own (s s' : System I (Shared I) (Phase I)) (i : I) (act : Act) (fresh : s.shared.lease.Fresh)
      (sound : Local configured i s.shared (s.threads i)) (_ : True)
      (moved : Move configured i s.shared (s.threads i) act s'.shared (s'.threads i)) :
      s'.shared.lease.Fresh ∧ Local configured i s'.shared (s'.threads i) ∧
        Guarantee i s.shared s'.shared := by
    obtain ⟨sound', step⟩ := local_move fresh sound moved
    exact ⟨step.lease.fresh fresh, sound', step⟩
  have stable (i other : I) (before after : Shared I) (phase : Phase I) (different : other ≠ i)
      (_ : before.lease.Fresh) (step : Guarantee i before after)
      (sound : Local configured other before phase) : Local configured other after phase :=
    sound.other different step
  exact safe_of_rely_guarantee Guarantee init own stable run fun _ _ => trivial

omit [DecidableEq I] in
theorem same_of_current (safe : Safe (fun σ => σ.lease.Fresh) (Local configured) s)
    (current : ∀ i, Current s.shared.now (s.threads i)) {j : I}
    (first : (s.threads i).replicates = true) (second : (s.threads j).replicates = true) :
    i = j := by
  have owner (k : I) (replicates : (s.threads k).replicates = true) :
      ∃ doc version, s.shared.lease.object = some (doc, version) ∧ doc.instanceID = k := by
    have sound := safe.thread k
    have live := current k
    have lasting (hold : Hold I) (held : HoldSound configured k s.shared hold)
        (unexpired : s.shared.now < hold.doc.expiry) :
        ∃ doc version, s.shared.lease.object = some (doc, version) ∧ doc.instanceID = k := by
      rcases held.stands with expired | ⟨doc, version, found, mine, _⟩
      · exact absurd unexpired (not_lt.mpr expired)
      · exact ⟨doc, version, found, mine⟩
    cases phase : s.threads k with
    | replicating hold | stopping hold | closing hold =>
      rw [phase] at sound live
      exact lasting hold sound (live hold rfl rfl)
    | renewing hold doc =>
      rw [phase] at sound live
      exact lasting hold sound.1 (live hold rfl rfl)
    | _ =>
      rw [phase] at replicates
      cases replicates
  obtain ⟨doc, version, found, mine⟩ := owner i first
  obtain ⟨doc', version', found', mine'⟩ := owner j second
  rw [found] at found'
  cases found'
  exact mine.symm.trans mine'

/-- No instance replaces or deletes a lease that another one holds unexpired, in any run; and
in every run in which the instances replicate only while their own last lease has not expired,
no two replicate at once. -/
theorem single_writer {start s : System I (Shared I) (Phase I)}
    {events : List (Event (System I (Shared I) (Phase I)) (I × Act))}
    (fresh : start.shared.lease.Fresh) (idle : ∀ i, start.threads i = .idle)
    (run : Run (Step (Move configured)) start events s) :
    (∀ e ∈ events, ∀ doc version, e.pre.shared.lease.object = some (doc, version) →
      e.pre.shared.now < doc.expiry → doc.instanceID ≠ e.label.1 →
      e.post.shared.lease.object = some (doc, version)) ∧
    ((∀ e ∈ events, InTime e) →
      ∀ i j, (s.threads i).replicates = true → (s.threads j).replicates = true → i = j) := by
  constructor
  · intro e member doc version found unexpired other
    obtain ⟨stepped, earlier, before, _⟩ := run.before_event member
    have safe := safe_of_run fresh idle before
    obtain ⟨moved, _⟩ := Step.moved stepped
    have step := (local_move safe.global (safe.thread _) moved).2
    refine step.lease.kept found ?_
    rintro (mine | expired)
    · exact other mine
    · exact absurd unexpired (not_lt.mpr expired)
  · intro inTime i j first second
    have reached : Safe (fun σ => σ.lease.Fresh) (Local configured) s ∧
        ∀ i, Current s.shared.now (s.threads i) := by
      clear first second
      induction run with
      | nil =>
        refine ⟨safe_of_run fresh idle .nil, fun i hold held => ?_⟩
        rw [idle i] at held
        cases held
      | @next events s s' label before taken ih =>
        obtain ⟨safe, current⟩ := ih fun e older => inTime e (mem_cons_of_mem _ older)
        refine ⟨safe_of_run fresh idle (before.next taken), fun k hold' held replicates => ?_⟩
        obtain ⟨mover, act⟩ := label
        obtain ⟨moved, kept⟩ := taken.moved
        have timely := inTime _ mem_cons_self
        rw [now_move moved]
        by_cases same : k = mover
        · subst same
          obtain ⟨hold, had, how, later⟩ := replicates_move (safe.thread k) moved held replicates
          refine lt_of_lt_of_le (timely k hold had (how.imp_right fun opened => ?_)) later
          rw [opened]
        · rw [kept k same] at held replicates
          exact timely k hold' held (.inl replicates)
    exact same_of_current reached.1 reached.2 first second

def atRest : System Bool (Shared Bool) (Phase Bool) := ⟨⟨0, ⟨none, 0⟩⟩, fun _ => .idle⟩

def byDefault (_ : Bool) : ℤ := defaultLeaseTTL

/-- One instance replicates and renews in time while the other is refused. -/
theorem renewed_in_time :
    ∃ events s, Run (Step (Move byDefault)) atRest events s ∧
      s.threads true = .replicating ⟨1, ⟨true, 20000000000, 60⟩⟩ ∧ s.threads false = .ended ∧
      ∀ i j, (s.threads i).replicates = true → (s.threads j).replicates = true → i = j := by
  have run : Run (Step (Move byDefault)) atRest _ _ :=
    extend .nil true (l := Act.prepare) rfl rfl
  have run := extend run true (l := Act.create) rfl rfl
  have run := extend run true (l := Act.openStore) rfl rfl
  have run := extend run true (l := Act.tick 20000000000) rfl rfl
  have run := extend run true (l := Act.heartbeat) rfl rfl
  have run := extend run true (l := Act.renew) rfl rfl
  have run := extend run false (l := Act.tick 50000000000) rfl rfl
  have run := extend run false (l := Act.prepare) rfl rfl
  have run := extend run false (l := Act.create) rfl rfl
  have run := extend run false (l := Act.read) rfl rfl
  refine ⟨_, _, run, rfl, rfl, ?_⟩
  refine (single_writer (by simp [Cell.Fresh, atRest]) (fun _ => rfl) run).2 ?_
  simp only [forall_mem_cons, not_mem_nil, IsEmpty.forall_iff, implies_true, and_true]
  -- the lease of 0 s lasts until 60 s, and that of 20 s until 80 s
  refine ⟨?_, ?_, ?_, ?_, ?_, ?_, ?_, ?_, ?_, ?_⟩ <;>
    (intro i hold held _; cases i <;> cases held <;> decide)

/-- An instance restores its database for longer than its lease lasts. Another one takes the
lease over and replicates, and then the first one opens its store as well. -/
theorem slow_restore_replicates_too :
    ∃ events s, Run (Step (Move byDefault)) atRest events s ∧
      (s.threads true).replicates = true ∧ (s.threads false).replicates = true := by
  have run : Run (Step (Move byDefault)) atRest _ _ :=
    extend .nil true (l := Act.prepare) rfl rfl
  have run := extend run true (l := Act.create) rfl rfl
  have run := extend run true (l := Act.tick 60000000000) rfl rfl
  have run := extend run false (l := Act.prepare) rfl rfl
  have run := extend run false (l := Act.create) rfl rfl
  have run := extend run false (l := Act.read) rfl rfl
  have run := extend run false (l := Act.takeOver) rfl rfl
  have run := extend run false (l := Act.openStore) rfl rfl
  have run := extend run true (l := Act.openStore) rfl rfl
  exact ⟨_, _, run, rfl, rfl⟩

end Runs

end BucketVcs.AuthReplica
