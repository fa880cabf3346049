import BucketVcs.Gc.Retention

/-! Pushes whose uploads come long before their commit, with marks and sweeps between
them: how old the object is that a sweep deletes. -/

namespace BucketVcs.Gc.Freshness

open Manifest Transition Gc.Sequential List AList

/-- A sequential run in which the uploads of a push are steps of their own, with the time
the stored version of every object was written. -/
structure State extends Sequential.State where
  writtenAt : Key → Instant

inductive Label where
  | upload (key : Key) (version : Nat) (now : Instant)
  | call (label : Sequential.Label)

/-- `PutIfAbsent`: an object that is there already keeps its version. -/
def State.upload (s : State) (key : Key) (version : Nat) (now : Instant) : State :=
  { s with
    objects := putIfAbsent s.objects key version
    clock := now
    writtenAt := if key ∈ s.objects then s.writtenAt else Function.update s.writtenAt key now }

/-- One upload, or one call from start to end. The commit of a push puts nothing more. -/
inductive Step : State → Label → State → Prop where
  | upload {s key version now} (clock : s.clock ≤ now) :
      Step s (.upload key version now) (s.upload key version now)
  | call {s l next} (step : Sequential.Step s.toState l next)
      (uploaded : ∀ root, l = .commit root → next.objects = s.objects) :
      Step s (.call l) ⟨next, s.writtenAt⟩

/-- What a sweep deletes was written a retention before, or earlier. -/
def FullWindow (seconds : Int) (e : Event State Label) : Prop :=
  ∀ run mark, e.label = .call (.sweep run mark) →
    ∀ key, Content key → key ∈ e.pre.objects → key ∉ e.post.objects →
      ∀ deletedAt, run.startedAt ≤ deletedAt → deletedAt ≤ run.completedAt →
        (e.pre.writtenAt key : Int) ≤ deletedAt - normalizeRetention seconds * 1000000000

def Fixed (seconds : Int) (e : Event State Label) : Prop :=
  ∀ run, e.label = .call (.mark run) → run.retentionSeconds = seconds

/-- No upload brings an object back that a stored mark still lists. -/
def NoneReborn (e : Event State Label) : Prop :=
  ∀ key version now, e.label = .upload key version now → Content key → key ∉ e.pre.objects →
    ∀ id mark, e.pre.marks.lookup id = some (some mark) →
      ∀ target ∈ mark.targets, target.candidate.key ≠ key

/-- A step of a run with one retention that brings nothing back. -/
structure Calm (seconds : Int) (e : Event State Label) : Prop where
  fixed : Fixed seconds e
  reborn : NoneReborn e

structure Started (s : State) : Prop where
  marks : s.marks = ∅
  written : ∀ key, key ∈ s.objects → s.writtenAt key ≤ s.clock

/-- A mark of the fixed retention, none of whose stored content is younger than it says. -/
structure Dated (seconds : Int) (s : State) (mark : MarkRecord) : Prop where
  retention : mark.retentionSeconds = normalizeRetention seconds
  listed : ∀ target ∈ mark.targets, Content target.candidate.key →
    target.candidate.key ∈ s.objects →
      s.writtenAt target.candidate.key ≤ target.candidate.firstSeenUnreachableAt

structure Safe (seconds : Int) (s : State) : Prop where
  written : ∀ key, key ∈ s.objects → s.writtenAt key ≤ s.clock
  marks : ∀ id mark, s.marks.lookup id = some (some mark) → Dated seconds s mark

variable {seconds : Int} {s : State}

theorem Started.safe (started : Started s) : Safe seconds s := by
  refine ⟨started.written, ?_⟩
  intro id mark stored
  rw [started.marks] at stored
  cases stored

variable {key : Key} {version : Nat} {now : Instant} {other : Key} {next : Sequential.State}
  {l : Sequential.Label} {s' : State}

attribute [local simp] State.upload

theorem writtenAt_upload_of_mem (there : key ∈ s.objects) (other : Key) :
    (s.upload key version now).writtenAt other = s.writtenAt other := by
  simp [there]

theorem writtenAt_upload_of_ne (different : other ≠ key) (version : Nat) (now : Instant) :
    (s.upload key version now).writtenAt other = s.writtenAt other := by
  by_cases there : key ∈ s.objects
  · exact writtenAt_upload_of_mem there other
  · simp [there, different]

theorem mem_upload : other ∈ (s.upload key version now).objects ↔ other = key ∨ other ∈ s.objects :=
  mem_putIfAbsent

theorem call_effect {s : Sequential.State} (step : Sequential.Step s l next)
    (uploaded : ∀ root, l = .commit root → next.objects = s.objects) :
    s.clock ≤ next.clock ∧ (∀ key, key ∈ next.objects → key ∈ s.objects) ∧
      ∀ id mark, next.marks.lookup id = some (some mark) →
        s.marks.lookup id = some (some mark) ∨
          ∃ run, l = .mark run ∧ runMark run s.bucket = .ok mark ∧ s.clock ≤ run.startedAt := by
  cases step with
  | @commit root now uploads follows clock =>
    refine ⟨clock, ?_, fun _ _ stored => .inl stored⟩
    intro key present
    rwa [uploaded root rfl] at present
  | @mark run record made unused clock time =>
    refine ⟨le_trans clock time, fun _ present => present, ?_⟩
    intro id mark stored
    by_cases same : id = run.id
    · subst same
      rw [lookup_insert] at stored
      cases stored
      exact .inr ⟨run, rfl, made, clock⟩
    · rw [lookup_insert_ne same] at stored
      exact .inl stored
  | @sweep run id mark objects stored swept clock time =>
    refine ⟨le_trans clock time, ?_, fun _ _ stored => .inl stored⟩
    intro key present
    obtain ⟨-, rfl⟩ := runSweep_ok.mp swept
    by_contra absent
    exact stays_absent absent present
  | @prune old gone =>
    refine ⟨le_rfl, fun _ present => present, ?_⟩
    intro id mark stored
    by_cases same : id = old
    · subst same
      rw [lookup_erase] at stored
      cases stored
    · rw [lookup_erase_ne same] at stored
      exact .inl stored

section

variable (safe : Safe seconds s)
include safe

theorem Safe.marked {run : MarkRun} {record : MarkRecord}
    (made : runMark run s.bucket = .ok record) (clock : s.clock ≤ run.startedAt)
    (fixed : run.retentionSeconds = seconds) : Dated seconds s record := by
  obtain ⟨-, prev, read, rfl⟩ := runMark_ok.mp made
  refine ⟨congrArg normalizeRetention fixed, ?_⟩
  intro target member content present
  rcases target_markRecord member with old | fresh
  · obtain ⟨id, mark, stored, listed⟩ := targets_known read old
    exact (safe.marks id mark stored).listed target listed content present
  · rw [fresh]
    exact le_trans (safe.written _ present) clock

theorem Safe.call (step : Sequential.Step s.toState l next)
    (uploaded : ∀ root, l = .commit root → next.objects = s.objects)
    (fixed : ∀ run, l = .mark run → run.retentionSeconds = seconds) :
    Safe seconds ⟨next, s.writtenAt⟩ := by
  obtain ⟨clock, kept, made⟩ := call_effect step uploaded
  constructor
  · intro key present
    exact le_trans (safe.written key (kept key present)) clock
  · intro id mark stored
    have dated : Dated seconds s mark := by
      rcases made id mark stored with old | ⟨run, rfl, marked, started⟩
      · exact safe.marks id mark old
      · exact safe.marked marked started (fixed run rfl)
    refine ⟨dated.retention, ?_⟩
    intro target member content present
    exact dated.listed target member content (kept _ present)

theorem Safe.upload (clock : s.clock ≤ now)
    (unlisted : Content key → key ∉ s.objects → ∀ id mark,
      s.marks.lookup id = some (some mark) → ∀ target ∈ mark.targets, target.candidate.key ≠ key) :
    Safe seconds (s.upload key version now) := by
  constructor
  · intro other present
    by_cases there : other ∈ s.objects
    · by_cases same : other = key
      · subst same
        rw [writtenAt_upload_of_mem there]
        exact le_trans (safe.written _ there) clock
      · rw [writtenAt_upload_of_ne same]
        exact le_trans (safe.written _ there) clock
    · have same : other = key := (mem_upload.mp present).resolve_right there
      subst same
      simp [there]
  · intro id mark stored
    have dated := safe.marks id mark stored
    refine ⟨dated.retention, ?_⟩
    intro target member content present
    by_cases there : target.candidate.key ∈ s.objects
    · have known := dated.listed target member content there
      by_cases same : target.candidate.key = key
      · subst same
        rwa [writtenAt_upload_of_mem there]
      · rwa [writtenAt_upload_of_ne same]
    · have same : target.candidate.key = key := (mem_upload.mp present).resolve_right there
      subst same
      exact absurd rfl (unlisted content there id mark stored target member)

theorem Safe.step {l : Label} (step : Step s l s')
    (calm : Calm seconds ⟨s, l, s'⟩) : Safe seconds s' := by
  cases step with
  | @upload key version now clock => exact safe.upload clock (calm.reborn key version now rfl)
  | @call l next step uploaded =>
    apply safe.call step uploaded
    intro run same
    exact calm.fixed run (congrArg Label.call same)

theorem Safe.sweep (fits : seconds ≤ maxRetentionSeconds) {l : Label}
    (step : Step s l s') : FullWindow seconds ⟨s, l, s'⟩ := by
  intro run mark same key content present gone deletedAt started completed
  cases step with
  | upload clock => cases same
  | call step uploaded =>
    cases same
    cases step with
    | sweep stored swept clock time =>
      obtain ⟨report, swept⟩ := swept
      obtain ⟨target, member, rfl, decided⟩ := removed_runSweep swept present gone
      have dated := safe.marks _ mark stored
      obtain ⟨positive, below⟩ := normalizeRetention_bounds fits
      rw [← dated.retention] at positive below ⊢
      have aged := retention_le_age positive below (decision_delete decided).2
      have written : (s.writtenAt target.candidate.key : Int) ≤
          target.candidate.firstSeenUnreachableAt :=
        Int.ofNat_le.mpr (dated.listed target member content present)
      have late : (run.startedAt : Int) ≤ deletedAt := Int.ofNat_le.mpr started
      show (s.writtenAt target.candidate.key : Int) ≤ _
      omega

end

/-- In a run in which no upload brings back an object that a stored mark lists, every
object gets the full retention from the time it was written. -/
theorem objects_get_full_window {start s : State} {events : List (Event State Label)} {seconds : Int}
    (started : Started start) (fits : seconds ≤ maxRetentionSeconds) (run : Run Step start events s)
    (fixed : ∀ e ∈ events, Fixed seconds e) (unborn : ∀ e ∈ events, NoneReborn e) :
    ∀ e ∈ events, FullWindow seconds e := by
  have calm : ∀ e ∈ events, Calm seconds e := fun e member => ⟨fixed e member, unborn e member⟩
  exact run.every_event (I := Safe seconds) started.safe
    (fun _ _ _ safe calm step => safe.step step calm)
    (fun _ _ _ safe _ step => safe.sweep fits step) calm

/-! A push put its pack and stopped; the pack is listed and swept an hour later. -/

def orphaned : State := ⟨pushStopped, fun _ => 0⟩

theorem started_orphaned : Started orphaned := ⟨rfl, fun _ _ => le_refl 0⟩

def sweptOnce : Sequential.State := listed.withSweep sweepRun earlyRecord

theorem swept_gone : orphanPack ∉ sweptOnce.objects :=
  State.absent_withSweep rfl (pack_target orphanPack_listed) (by decide)
    (orphanPack_due (orphanPack_dead _ _))

theorem step_sweptOnce : Sequential.Step listed (.sweep sweepRun earlyRecord) sweptOnce :=
  State.step_withSweep rfl (lookup_insert _) (by decide) (by decide)

def firstEvents : List (Event State Label) :=
  [⟨⟨listed, fun _ => 0⟩, .call (.sweep sweepRun earlyRecord), ⟨sweptOnce, fun _ => 0⟩⟩,
    ⟨orphaned, .call (.mark earlyMark), ⟨listed, fun _ => 0⟩⟩]

theorem run_firstEvents : Run Step orphaned firstEvents ⟨sweptOnce, fun _ => 0⟩ := by
  have marks : Step orphaned (.call (.mark earlyMark)) ⟨listed, fun _ => 0⟩ :=
    .call step_listed fun _ other => Sequential.Label.noConfusion other
  have sweeps : Step ⟨listed, fun _ => 0⟩ (.call (.sweep sweepRun earlyRecord))
      ⟨sweptOnce, fun _ => 0⟩ :=
    .call step_sweptOnce fun _ other => Sequential.Label.noConfusion other
  exact (Run.nil.next marks).next sweeps

theorem fixed_firstEvents : ∀ e ∈ firstEvents, Fixed 3600 e := by
  intro e member run same
  simp only [firstEvents, mem_cons, not_mem_nil, or_false] at member
  rcases member with rfl | rfl
  · cases same
  · cases same
    rfl

theorem objects_get_full_window_sample :
    Started orphaned ∧ (∀ e ∈ firstEvents, FullWindow 3600 e) ∧
      orphanPack ∈ orphaned.objects ∧ orphanPack ∉ sweptOnce.objects := by
  have unborn : ∀ e ∈ firstEvents, NoneReborn e := by
    intro e member key version now same
    simp only [firstEvents, mem_cons, not_mem_nil, or_false] at member
    rcases member with rfl | rfl <;> cases same
  exact ⟨started_orphaned,
    objects_get_full_window started_orphaned (by decide) run_firstEvents fixed_firstEvents unborn,
    orphanPack_stored, swept_gone⟩

/-! The push is tried again right after the sweep, and the next mark runs before it
commits. -/

def retried : State := State.upload ⟨sweptOnce, fun _ => 0⟩ orphanPack 2 (hour + 4)

def nextMark : MarkRun := ⟨"mk_02", hour + 5, hour + 6, 3600⟩

def nextRecord : MarkRecord :=
  markRecord nextMark retried.roots.current
    (liveKeys retried.roots.current retried.roots.current.body) (some earlyRecord)
    retried.objects.keys

def nextSweep : SweepRun := ⟨"sw_02", hour + 7, hour + 8, false⟩

def remarked : State := ⟨retried.toState.withMark nextMark (some earlyRecord), retried.writtenAt⟩

def sweptTwice : State :=
  ⟨remarked.toState.withSweep nextSweep nextRecord, retried.writtenAt⟩

theorem retried_stored : orphanPack ∈ retried.objects := mem_upload.mpr (.inl rfl)

theorem remarked_stored : orphanPack ∈ remarked.objects := by
  change orphanPack ∈ (retried.toState.withMark nextMark (some earlyRecord)).objects
  rw [State.objects_withMark]
  exact retried_stored

theorem written_retried : remarked.writtenAt orphanPack = hour + 4 := by
  simp [remarked, retried, swept_gone]

-- the entry of the first mark is carried into the second, although the object is new
theorem reborn_gone : orphanPack ∉ sweptTwice.objects :=
  State.carried_swept rfl retried_stored rfl (orphanPack_dead _ _) ⟨_, orphanPack_listed, rfl⟩
    earlyRecord_dated (by decide)

theorem young_at_second_sweep :
    ¬ FullWindow 3600 ⟨remarked, .call (.sweep nextSweep nextRecord), sweptTwice⟩ := by
  intro respects
  have young := respects nextSweep nextRecord rfl orphanPack ⟨.canonicalPacks, by decide, rfl⟩
    remarked_stored reborn_gone (hour + 7) (le_rfl) (by decide)
  simp only [written_retried] at young
  exact absurd young (by decide)

/-- The pack is three nanoseconds old when the second sweep deletes it. -/
theorem reborn_pack_swept_at_once :
    ∃ events s, Started orphaned ∧ Run Step orphaned events s ∧
      (∀ e ∈ events, Fixed 3600 e) ∧ ∃ e ∈ events, ¬ FullWindow 3600 e := by
  have uploads : Step ⟨sweptOnce, fun _ => 0⟩ (.upload orphanPack 2 (hour + 4)) retried :=
    .upload (by decide)
  have unused : nextMark.id ∉ retried.marks := by
    intro stored
    rcases (mem_insert _).mp stored with same | older
    · exact absurd same (by decide)
    · exact notMem_empty _ older
  have marks : Step retried (.call (.mark nextMark)) remarked :=
    .call (State.step_withMark rfl (readLatest_single (by decide) earlyRecord) unused (by decide)
      (by decide)) fun _ other => Sequential.Label.noConfusion other
  have sweeps : Step remarked (.call (.sweep nextSweep nextRecord)) sweptTwice :=
    .call (State.step_withSweep rfl (lookup_insert _) (by decide) (by decide))
      fun _ other => Sequential.Label.noConfusion other
  have run := ((run_firstEvents.next uploads).next marks).next sweeps
  refine ⟨_, sweptTwice, started_orphaned, run, ?_,
    ⟨remarked, .call (.sweep nextSweep nextRecord), sweptTwice⟩, mem_cons_self,
    young_at_second_sweep⟩
  intro e member run same
  simp only [mem_cons] at member
  rcases member with rfl | rfl | rfl | older
  · cases same
  · cases same
    rfl
  · cases same
  · exact fixed_firstEvents e older run same

end BucketVcs.Gc.Freshness
