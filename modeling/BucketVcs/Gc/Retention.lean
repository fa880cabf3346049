import BucketVcs.Gc
import BucketVcs.Lib.Run
import BucketVcs.Lib.Timeline

/-! Commits, marks and sweeps one after the other, under a clock that does not run back:
how long a swept object has been unreferenced. -/

namespace BucketVcs.Gc

open Manifest Transition Timeline List AList

/-! What a sweep deletes. -/

variable {objects : Objects} {key : Key} {dryRun : Bool} {progress : Progress} {target : Target}
  {mark : MarkRecord} {live : List Key} {now : Instant} {targets : List Target} {keys : List Key}
  {run : MarkRun} {view : View} {prev : Option MarkRecord} {marks : Marks}

theorem erase_of_notMem (absent : key ∉ objects) :
    objects.erase key = objects := ext (kerase_of_notMem_keys absent)

theorem objects_delete (progress : Progress) (target : Target) :
    (progress.delete false target).objects = progress.objects.erase target.candidate.key := by
  unfold Progress.delete deleteIfVersionMatches
  cases found : progress.objects.lookup target.candidate.key with
  | none =>
    have absent : target.candidate.key ∉ progress.objects := lookup_eq_none.mp found
    exact (erase_of_notMem absent).symm
  | some version => simp

section

variable (present : key ∈ progress.objects)
include present

theorem removed_delete (gone : key ∉ (progress.delete dryRun target).objects) :
    key = target.candidate.key := by
  cases dryRun with
  | true => exact absurd present gone
  | false =>
    rw [objects_delete] at gone
    by_contra other
    exact gone (mem_erase.mpr ⟨other, present⟩)

theorem removed_sweepTarget
    (gone : key ∉ (sweepTarget dryRun mark live now progress target).objects) :
    key = target.candidate.key ∧ decision mark live now target = .delete := by
  unfold sweepTarget at gone
  split at gone
  · exact absurd present gone
  · cases decided : decision mark live now target with
    | delete =>
      rw [decided] at gone
      exact ⟨removed_delete present gone, rfl⟩
    | revived | retention | disarmed =>
      rw [decided] at gone
      exact absurd present gone

theorem removed_foldl
    (gone : key ∉ (targets.foldl (sweepTarget dryRun mark live now) progress).objects) :
    ∃ target ∈ targets, key = target.candidate.key ∧ decision mark live now target = .delete := by
  induction targets generalizing progress with
  | nil => exact absurd present gone
  | cons target rest ih =>
    by_cases still : key ∈ (sweepTarget dryRun mark live now progress target).objects
    · obtain ⟨later, member, found⟩ := ih still gone
      exact ⟨later, mem_cons_of_mem _ member, found⟩
    · exact ⟨target, mem_cons_self, removed_sweepTarget present still⟩

end

theorem absent_delete (absent : key ∉ progress.objects) :
    key ∉ (progress.delete dryRun target).objects := by
  cases dryRun with
  | true => exact absent
  | false =>
    rw [objects_delete]
    intro present
    exact absent (mem_erase.mp present).2

theorem absent_sweepTarget (absent : key ∉ progress.objects) :
    key ∉ (sweepTarget dryRun mark live now progress target).objects := by
  unfold sweepTarget
  split
  · exact absent
  · cases decision mark live now target with
    | delete => exact absent_delete absent
    | revived | retention | disarmed => exact absent

theorem absent_of_delete (plain : target.category ≠ .orphanMarkers)
    (decided : decision mark live now target = .delete) :
    target.candidate.key ∉ (sweepTarget false mark live now progress target).objects := by
  have unchecked : recordIsBack progress.objects target = false := by
    simp [recordIsBack, plain]
  simp only [sweepTarget, unchecked, decided, applyDecision, objects_delete, Bool.and_false,
    Bool.false_eq_true, if_false]
  intro present
  exact (mem_erase.mp present).1 rfl

theorem stays_absent (absent : key ∉ progress.objects) :
    key ∉ (targets.foldl (sweepTarget dryRun mark live now) progress).objects := by
  induction targets generalizing progress with
  | nil => exact absent
  | cons next rest ih => exact ih (absent_sweepTarget absent)

theorem absent_foldl (member : target ∈ targets) (plain : target.category ≠ .orphanMarkers)
    (decided : decision mark live now target = .delete) :
    target.candidate.key ∉ (targets.foldl (sweepTarget false mark live now) progress).objects := by
  induction targets generalizing progress with
  | nil => cases member
  | cons next rest ih =>
    rcases mem_cons.mp member with rfl | later
    · rw [foldl_cons]
      exact stays_absent (absent_of_delete plain decided)
    · exact ih later

def sweepAll (run : SweepRun) (mark : MarkRecord) (bucket : Bucket) : Progress :=
  mark.targets.foldl
    (sweepTarget run.dryRun mark (liveKeys bucket.root bucket.root.body) run.startedAt)
    ⟨bucket.objects, [], []⟩

theorem runSweep_ok {run : SweepRun} {bucket : Bucket} :
    (∃ report, runSweep run mark bucket = .ok (objects, report)) ↔
      validateBody bucket.root.body = .ok () ∧ objects = (sweepAll run mark bucket).objects := by
  constructor
  · rintro ⟨report, swept⟩
    obtain ⟨live, built, swept⟩ := Results.bind_ok swept
    obtain ⟨valid, rfl⟩ := buildLiveSet_ok.mp built
    cases swept
    exact ⟨valid, rfl⟩
  · rintro ⟨valid, rfl⟩
    rw [runSweep, buildLiveSet_ok.mpr ⟨valid, rfl⟩]
    exact ⟨_, rfl⟩

theorem removed_runSweep {run : SweepRun} {bucket : Bucket} {report : SweepRecord}
    (swept : runSweep run mark bucket = .ok (objects, report)) (present : key ∈ bucket.objects)
    (gone : key ∉ objects) :
    ∃ target ∈ mark.targets, key = target.candidate.key ∧
      decision mark (liveKeys bucket.root bucket.root.body) run.startedAt target = .delete := by
  obtain ⟨-, rfl⟩ := runSweep_ok.mp ⟨report, swept⟩
  exact removed_foldl present gone

def maxRetentionSeconds : Int := 9223372036

theorem retention_le_age (positive : 0 < mark.retentionSeconds)
    (fits : mark.retentionSeconds ≤ maxRetentionSeconds) {first : Instant}
    (old : mark.retention ≤ age now first) :
    (first : Int) + mark.retentionSeconds * 1000000000 ≤ now := by
  unfold maxRetentionSeconds at fits
  have whole : mark.retention = mark.retentionSeconds * 1000000000 := by
    apply Int.bmod_eq_of_le <;> omega
  unfold age at old
  omega

/-! Which candidates a mark carries over. -/

theorem mem_carry {α : Type} {keyOf : α → Key} {old : List α} {fresh : Key → α} {entry : α}
    (member : entry ∈ carry keyOf old fresh keys) : entry ∈ old ∨ ∃ key, entry = fresh key := by
  obtain ⟨key, -, rfl⟩ := mem_map.mp member
  cases found : old.reverse.find? fun entry => keyOf entry == key with
  | none => exact .inr ⟨key, rfl⟩
  | some known => exact .inl (mem_reverse.mp (List.mem_of_find?_eq_some found))

theorem mem_carryCandidates {old : List Candidate} {candidate : Candidate}
    (member : candidate ∈ carryCandidates old now keys) :
    candidate ∈ old ∨ candidate.firstSeenUnreachableAt = now := by
  rcases mem_carry member with known | ⟨key, rfl⟩
  · exact .inl known
  · exact .inr rfl

def known (prev : Option MarkRecord) : Candidates :=
  (prev.map MarkRecord.candidates).getD noCandidates

theorem target_markRecord {listed : List Key}
    (member : target ∈ (markRecord run view live prev listed).targets) :
    target ∈ (known prev).targets ∨ target.candidate.firstSeenUnreachableAt = run.startedAt := by
  simp only [MarkRecord.targets, Candidates.targets, mem_append, mem_map]
    at member ⊢
  rcases member with
    (((⟨tx, member, rfl⟩ | ⟨pack, member, rfl⟩) | ⟨index, member, rfl⟩) | ⟨bundle, member, rfl⟩) |
      ⟨marker, member, rfl⟩
  · rcases mem_carryCandidates member with old | fresh
    · exact .inl (.inl (.inl (.inl (.inl ⟨tx, old, rfl⟩))))
    · exact .inr fresh
  · rcases mem_carry member with old | ⟨key, rfl⟩
    · exact .inl (.inl (.inl (.inl (.inr ⟨pack, old, rfl⟩))))
    · exact .inr rfl
  · rcases mem_carryCandidates member with old | fresh
    · exact .inl (.inl (.inl (.inr ⟨index, old, rfl⟩)))
    · exact .inr fresh
  · rcases mem_carryCandidates member with old | fresh
    · exact .inl (.inl (.inr ⟨bundle, old, rfl⟩))
    · exact .inr fresh
  · rcases mem_carryCandidates member with old | fresh
    · exact .inl (.inr ⟨marker, old, rfl⟩)
    · exact .inr fresh

theorem pack_listed {listed : List Key} (found : key ∈ discoverCanonicalPacks listed live) :
    (⟨⟨key, run.startedAt⟩, none, view.manifestVersion⟩ : PackCandidate) ∈
      (markRecord run view live none listed).candidates.canonicalPacks :=
  mem_map.mpr ⟨key, found, rfl⟩

theorem pack_carried {prev : MarkRecord} {listed : List Key}
    (found : key ∈ discoverCanonicalPacks listed live)
    (old : ∃ entry ∈ prev.candidates.canonicalPacks, entry.key = key) :
    ∃ entry ∈ prev.candidates.canonicalPacks, entry.key = key ∧
      entry ∈ (markRecord run view live (some prev) listed).candidates.canonicalPacks := by
  cases kept : prev.candidates.canonicalPacks.reverse.find? fun entry => entry.key == key with
  | none =>
    obtain ⟨entry, member, same⟩ := old
    have missed := List.find?_eq_none.mp kept entry (mem_reverse.mpr member)
    simp [same] at missed
  | some entry =>
    refine ⟨entry, mem_reverse.mp (List.mem_of_find?_eq_some kept), ?_, ?_⟩
    · simpa using List.find?_some kept
    · exact mem_map.mpr ⟨key, found, by simp [kept]⟩

theorem pack_target {entry : PackCandidate} (member : entry ∈ mark.candidates.canonicalPacks) :
    (⟨entry.toCandidate, .canonicalPacks⟩ : Target) ∈ mark.targets := by
  simp only [MarkRecord.targets, Candidates.targets, mem_append, mem_map]
  exact .inl (.inl (.inl (.inr ⟨entry, member, rfl⟩)))

theorem readLatest_stored (read : readLatest marks = .ok (some mark)) :
    ∃ id, marks.lookup id = some (some mark) := by
  unfold readLatest at read
  split at read
  · cases read
  · next id _ =>
      split at read
      · cases read
      · cases read
      · next found =>
          cases read
          exact ⟨id, found⟩

theorem readLatest_single {id : MarkID} (named : id ≠ "") (record : MarkRecord) :
    readLatest (AList.insert id (some record) ∅) = .ok (some record) := by
  have only : listMarks (.insert id (some record) ∅) = [id] := by
    simp [listMarks, named]
  rw [readLatest, only, head?_cons]
  simp only [lookup_insert]

theorem targets_known (read : readLatest marks = .ok prev) (member : target ∈ (known prev).targets) :
    ∃ id mark, marks.lookup id = some (some mark) ∧ target ∈ mark.targets := by
  cases prev with
  | none => cases member
  | some mark =>
    obtain ⟨id, stored⟩ := readLatest_stored read
    exact ⟨id, mark, stored, member⟩

namespace Sequential

/-! Sequential runs. -/

/-- The roots with the time each was current, the objects, the stored marks, and the time
of the last step. -/
structure State where
  roots : Line View
  objects : Objects
  marks : Marks
  clock : Instant

def State.bucket (s : State) : Bucket := ⟨s.roots.current, s.objects, s.marks⟩

inductive Label where
  | commit (next : View)
  | mark (run : MarkRun)
  | sweep (run : SweepRun) (mark : MarkRecord)
  | prune

/-- One call, from start to end. A commit may first put any objects. -/
inductive Step : State → Label → State → Prop where
  | commit {s next now} (uploads : List (Key × Nat))
      (follows : next.manifestVersion = s.roots.current.manifestVersion + 1)
      (clock : s.clock ≤ now) :
      Step s (.commit next)
        { s with
          roots := s.roots.replace next now
          objects := uploads.foldl (fun objects put => putIfAbsent objects put.1 put.2) s.objects
          clock := now }
  | mark {s run record} (marked : runMark run s.bucket = .ok record) (unused : run.id ∉ s.marks)
      (clock : s.clock ≤ run.startedAt) (time : run.startedAt ≤ run.completedAt) :
      Step s (.mark run)
        { s with marks := s.marks.insert run.id (some record), clock := run.completedAt }
  | sweep {s run id mark objects} (stored : s.marks.lookup id = some (some mark))
      (swept : ∃ report, runSweep run mark s.bucket = .ok (objects, report))
      (clock : s.clock ≤ run.startedAt) (time : run.startedAt ≤ run.completedAt) :
      Step s (.sweep run mark) { s with objects := objects, clock := run.completedAt }
  | prune {s id} (old : id ∈ pruned s.marks) :
      Step s .prune { s with marks := s.marks.erase id }

structure Unmarked (s : State) : Prop where
  marks : s.marks = ∅
  past : s.roots.past = []
  clock : s.roots.since ≤ s.clock

def Content (key : Key) : Prop := ∃ area ∈ contentAreas, under area.path key = true

/-- What a sweep deletes under a mark pinned to some retention, no root referenced at any
moment within the retention before. -/
def RespectsRetention (e : Event State Label) : Prop :=
  ∀ run mark, e.label = .sweep run mark →
    ∀ key, Content key → key ∈ e.pre.objects → key ∉ e.post.objects →
      ∀ deletedAt, run.startedAt ≤ deletedAt → deletedAt ≤ run.completedAt →
        ∀ (moment : Instant) root,
          (deletedAt : Int) - mark.retentionSeconds * 1000000000 < moment → moment ≤ deletedAt →
          e.pre.roots.At moment root → key ∉ bodyKeys root.body

/-- No commit drops a key that some stored mark lists, and retentions are durations. -/
def KeepsListed (e : Event State Label) : Prop :=
  (∀ next, e.label = .commit next → ∀ id mark, e.pre.marks.lookup id = some (some mark) →
    ∀ target ∈ mark.targets, Content target.candidate.key →
      target.candidate.key ∈ bodyKeys e.pre.roots.current.body →
      target.candidate.key ∈ bodyKeys next.body) ∧
  ∀ run, e.label = .mark run → run.retentionSeconds ≤ maxRetentionSeconds

/-- A mark whose retention is a duration and whose content has been quiet since it was
first listed. -/
structure Sound (roots : Line View) (mark : MarkRecord) : Prop where
  positive : 0 < mark.retentionSeconds
  fits : mark.retentionSeconds ≤ maxRetentionSeconds
  quiet : ∀ target ∈ mark.targets, Content target.candidate.key →
    roots.Quiet (fun root => target.candidate.key ∈ bodyKeys root.body)
      target.candidate.firstSeenUnreachableAt

structure Settled (s : State) : Prop where
  clock : s.roots.Before s.clock
  marks : ∀ id mark, s.marks.lookup id = some (some mark) → Sound s.roots mark

variable {s : State}

theorem Unmarked.settled (unmarked : Unmarked s) : Settled s := by
  refine ⟨⟨unmarked.clock, ?_⟩, ?_⟩
  · rw [unmarked.past]
    intro span member
    cases member
  · rw [unmarked.marks]
    intro id mark found
    cases found

theorem normalizeRetention_bounds {seconds : Int} (fits : seconds ≤ maxRetentionSeconds) :
    0 < normalizeRetention seconds ∧ normalizeRetention seconds ≤ maxRetentionSeconds := by
  unfold normalizeRetention maxRetentionSeconds defaultRetentionSeconds at *
  split <;> omega

theorem Settled.marked (settled : Settled s) {run : MarkRun} {record : MarkRecord}
    (made : runMark run s.bucket = .ok record) (clock : s.clock ≤ run.startedAt)
    (fits : run.retentionSeconds ≤ maxRetentionSeconds) : Sound s.roots record := by
  obtain ⟨-, prev, read, rfl⟩ := runMark_ok.mp made
  obtain ⟨positive, below⟩ := normalizeRetention_bounds fits
  refine ⟨positive, below, ?_⟩
  intro target member content
  rcases target_markRecord member with old | fresh
  · obtain ⟨id, mark, stored, listed⟩ := targets_known read old
    exact (settled.marks id mark stored).quiet target listed content
  · rw [fresh]
    exact settled.clock.quiet _ clock

variable {s' : State} {l : Label} {run : SweepRun} {mark : MarkRecord}

theorem Settled.step (settled : Settled s) (keeps : KeepsListed ⟨s, l, s'⟩)
    (step : Step s l s') : Settled s' := by
  cases step with
  | @commit next now uploads follows clock =>
    refine ⟨settled.clock.replace clock next, ?_⟩
    intro id mark stored
    have sound := settled.marks id mark stored
    refine ⟨sound.positive, sound.fits, ?_⟩
    intro target member content
    apply (sound.quiet target member content).replace
    exact keeps.1 next rfl id mark stored target member content
  | @mark run record made unused clock time =>
    have later : s.clock ≤ run.completedAt := le_trans clock time
    refine ⟨settled.clock.mono later, ?_⟩
    intro id mark stored
    by_cases same : id = run.id
    · subst same
      rw [lookup_insert] at stored
      cases stored
      exact settled.marked made clock (keeps.2 run rfl)
    · rw [lookup_insert_ne same] at stored
      exact settled.marks id mark stored
  | @sweep run id mark objects stored swept clock time =>
    exact ⟨settled.clock.mono (le_trans clock time), settled.marks⟩
  | @prune old gone =>
    refine ⟨settled.clock, ?_⟩
    intro id mark stored
    by_cases same : id = old
    · subst same
      rw [lookup_erase] at stored
      cases stored
    · rw [lookup_erase_ne same] at stored
      exact settled.marks id mark stored

theorem Settled.sweep (settled : Settled s) (step : Step s l s') :
    RespectsRetention ⟨s, l, s'⟩ := by
  rintro run mark rfl key content present gone deletedAt started completed moment root after
    before current
  cases step with
  | sweep stored swept clock time =>
    obtain ⟨report, swept⟩ := swept
    obtain ⟨target, member, rfl, decided⟩ := removed_runSweep swept present gone
    obtain ⟨dead, old⟩ := decision_delete decided
    have sound := settled.marks _ mark stored
    have aged := retention_le_age sound.positive sound.fits old
    have unreferenced : target.candidate.key ∉ bodyKeys s.roots.current.body := by
      intro referenced
      exact dead (mem_cons_of_mem _ (mem_append_right _ referenced))
    have late : (run.startedAt : Int) ≤ deletedAt := Int.ofNat_le.mpr started
    apply (sound.quiet target member content).not_at unreferenced _ current
    omega

/-- In a run whose commits drop no key that a stored mark lists, retention is measured
over the time an object has been unreferenced. -/
theorem sweep_respects_retention {start s : State} {events : List (Event State Label)}
    (unmarked : Unmarked start) (run : Run Step start events s)
    (keeps : ∀ e ∈ events, KeepsListed e) : ∀ e ∈ events, RespectsRetention e :=
  run.every_event (I := Settled) unmarked.settled (fun _ _ _ settled kept step =>
    settled.step kept step) (fun _ _ _ settled _ step => settled.sweep step) keeps

/-! A push put its pack and stopped before its commit; a mark listed the pack. -/

def hour : Instant := 3600000000000

def orphanPack : Key := canonicalPackKey "2222222222222222222222222222222222222222"

def pushStopped : State :=
  { roots := ⟨⟨⟨1, 1, Importer.createdBody "refs/heads/main".toUTF8.toList⟩, "01A"⟩, 0, []⟩
    objects := objectsOf (bodyKeys importedBody ++ txKeys "01A")
    marks := ∅
    clock := 0 }

def State.withMark (s : State) (run : MarkRun) (prev : Option MarkRecord) : State :=
  { s with
    marks := s.marks.insert run.id (some (markRecord run s.roots.current
      (liveKeys s.roots.current s.roots.current.body) prev s.objects.keys))
    clock := run.completedAt }

theorem State.objects_withMark (s : State) (run : MarkRun) (prev : Option MarkRecord) :
    (s.withMark run prev).objects = s.objects := rfl

theorem State.step_withMark {run : MarkRun} {prev : Option MarkRecord}
    (valid : validateBody s.roots.current.body = .ok ()) (read : readLatest s.marks = .ok prev)
    (unused : run.id ∉ s.marks) (clock : s.clock ≤ run.startedAt)
    (time : run.startedAt ≤ run.completedAt) : Step s (.mark run) (s.withMark run prev) :=
  .mark (runMark_ok.mpr ⟨valid, prev, read, rfl⟩) unused clock time

def State.withRoot (s : State) (next : View) (now : Instant) : State :=
  { s with
    roots := s.roots.replace next now
    objects := ((bodyKeys next.body ++ txKeys next.latestTx).map fun key => (key, 1)).foldl
      (fun objects put => putIfAbsent objects put.1 put.2) s.objects
    clock := now }

theorem State.mem_withRoot {next : View} {now : Instant} {key : Key}
    (member : key ∈ s.objects) : key ∈ (s.withRoot next now).objects := by
  change key ∈ ((bodyKeys next.body ++ txKeys next.latestTx).map fun key => (key, 1)).foldl _ _
  generalize (bodyKeys next.body ++ txKeys next.latestTx).map (fun key => (key, 1)) = uploads
  generalize s.objects = objects at member ⊢
  induction uploads generalizing objects with
  | nil => exact member
  | cons put rest ih => exact ih _ (mem_putIfAbsent.mpr (.inr member))

def State.withSweep (s : State) (run : SweepRun) (mark : MarkRecord) : State :=
  { s with objects := (sweepAll run mark s.bucket).objects, clock := run.completedAt }

theorem State.absent_withSweep {target : Target} (real : run.dryRun = false)
    (member : target ∈ mark.targets) (plain : target.category ≠ .orphanMarkers)
    (decided : decision mark (liveKeys s.roots.current s.roots.current.body) run.startedAt target =
      .delete) : target.candidate.key ∉ (s.withSweep run mark).objects := by
  unfold State.withSweep sweepAll
  rw [real]
  exact absent_foldl member plain decided

theorem State.step_withSweep {id : MarkID} (valid : validateBody s.roots.current.body = .ok ())
    (stored : s.marks.lookup id = some (some mark)) (clock : s.clock ≤ run.startedAt)
    (time : run.startedAt ≤ run.completedAt) : Step s (.sweep run mark) (s.withSweep run mark) :=
  .sweep stored (runSweep_ok.mpr ⟨valid, rfl⟩) clock time

theorem State.carried_swept {run : MarkRun} {prev : MarkRecord} {sweep : SweepRun}
    {key : Key} {first : Instant} (real : sweep.dryRun = false) (present : key ∈ s.objects)
    (pack : under Area.canonicalPacks.path key = true)
    (unreferenced : key ∉ liveKeys s.roots.current s.roots.current.body)
    (old : ∃ entry ∈ prev.candidates.canonicalPacks, entry.key = key)
    (dated : ∀ entry ∈ prev.candidates.canonicalPacks, entry.firstSeenUnreachableAt = first)
    (due : (normalizeRetention run.retentionSeconds * 1000000000).bmod 18446744073709551616 ≤
      age sweep.startedAt first) :
    key ∉ ((s.withMark run (some prev)).withSweep sweep (markRecord run s.roots.current
      (liveKeys s.roots.current s.roots.current.body) (some prev) s.objects.keys)).objects := by
  obtain ⟨entry, known, rfl, carried⟩ :=
    pack_carried (mem_listExcludingLive.mpr ⟨present, pack, unreferenced⟩) old
  apply State.absent_withSweep real (pack_target carried) (by simp)
  apply decision_of_dead unreferenced
  · rw [dated entry known]
    exact due
  · intro other
    cases other

def earlyMark : MarkRun := ⟨"mk_01", 0, 1, 3600⟩

def earlyRecord : MarkRecord :=
  markRecord earlyMark pushStopped.roots.current
    (liveKeys pushStopped.roots.current pushStopped.roots.current.body) none
    pushStopped.objects.keys

def listed : State := pushStopped.withMark earlyMark none

theorem unmarked_pushStopped : Unmarked pushStopped := ⟨rfl, rfl, le_refl 0⟩

theorem step_listed : Step pushStopped (.mark earlyMark) listed :=
  State.step_withMark rfl rfl (notMem_empty _) (le_refl 0) (Nat.zero_le 1)

theorem orphanPack_stored : orphanPack ∈ pushStopped.objects :=
  mem_objectsOf.mpr (mem_append_left _ (mem_of_getElem? (i := 0) rfl))

theorem orphanPack_immutable : Immutable orphanPack := .inl ⟨.canonicalPacks, by decide, rfl⟩

theorem orphanPack_dead (view : View) (branch : RefName) :
    orphanPack ∉ liveKeys view (Importer.createdBody branch) := by
  intro live
  have none : orphanPack ∈ [] := mem_bodyKeys_of_live orphanPack_immutable live
  cases none

theorem orphanPack_listed :
    (⟨⟨orphanPack, 0⟩, none, 1⟩ : PackCandidate) ∈ earlyRecord.candidates.canonicalPacks :=
  pack_listed (mem_listExcludingLive.mpr ⟨orphanPack_stored, rfl, orphanPack_dead _ _⟩)

theorem earlyRecord_dated : ∀ entry ∈ earlyRecord.candidates.canonicalPacks,
    entry.firstSeenUnreachableAt = 0 := by
  intro entry member
  obtain ⟨key, -, rfl⟩ := mem_map.mp member
  rfl

def laterBody : Body :=
  branchBody ⟨"5555555555555555555555555555555555555555", 300, 3, "6666", "7777"⟩

theorem orphanPack_dropped (view : View) : orphanPack ∉ liveKeys view laterBody := by
  have unreferenced : orphanPack ∉ bodyKeys laterBody := by decide
  intro live
  exact unreferenced (mem_bodyKeys_of_live orphanPack_immutable live)

def sweepRun : SweepRun := ⟨"sw_01", hour + 2, hour + 3, false⟩

theorem orphanPack_due {live : List Key} (dead : orphanPack ∉ live) :
    decision earlyRecord live (hour + 2) ⟨⟨orphanPack, 0⟩, .canonicalPacks⟩ = .delete :=
  decision_of_dead dead (by decide) (by decide)

def repushed : State := listed.withRoot ⟨⟨2, 2, laterBody⟩, "01B"⟩ 1000

theorem sweep_respects_retention_sample :
    ∃ events s, Run Step pushStopped events s ∧ Unmarked pushStopped ∧
      (∀ e ∈ events, KeepsListed e) ∧ (∀ e ∈ events, RespectsRetention e) ∧
      orphanPack ∈ repushed.objects ∧ orphanPack ∉ s.objects := by
  have pushes : Step listed (.commit ⟨⟨2, 2, laterBody⟩, "01B"⟩) repushed :=
    .commit _ rfl (by decide)
  have sweeps : Step repushed (.sweep sweepRun earlyRecord)
      (repushed.withSweep sweepRun earlyRecord) :=
    State.step_withSweep rfl (lookup_insert _) (by decide) (by decide)
  have run := ((Run.nil.next step_listed).next pushes).next sweeps
  have keeps : ∀ e ∈ [⟨repushed, .sweep sweepRun earlyRecord,
      repushed.withSweep sweepRun earlyRecord⟩,
      ⟨listed, .commit ⟨⟨2, 2, laterBody⟩, "01B"⟩, repushed⟩,
      ⟨pushStopped, .mark earlyMark, listed⟩], KeepsListed e := by
    intro e member
    simp only [mem_cons, not_mem_nil, or_false] at member
    rcases member with rfl | rfl | rfl
    · exact ⟨fun _ other => Label.noConfusion other, fun _ other => Label.noConfusion other⟩
    · refine ⟨?_, fun _ other => Label.noConfusion other⟩
      intro next _ id mark stored target member content referenced
      -- the root before references nothing
      cases referenced
    · refine ⟨fun _ other => Label.noConfusion other, ?_⟩
      intro run same
      cases same
      decide
  have gone : orphanPack ∉ (repushed.withSweep sweepRun earlyRecord).objects :=
    State.absent_withSweep rfl (pack_target orphanPack_listed) (by decide)
      (orphanPack_due (orphanPack_dropped _))
  exact ⟨_, _, run, unmarked_pushStopped, keeps,
    sweep_respects_retention unmarked_pushStopped run keeps,
    State.mem_withRoot orphanPack_stored, gone⟩

def pushed : State := listed.withRoot ⟨⟨2, 2, importedBody⟩, "01B"⟩ 1000

def dropped : State := pushed.withRoot ⟨⟨3, 3, laterBody⟩, "01C"⟩ (hour - 1)

def lateMark : MarkRun := ⟨"mk_02", hour, hour + 1, 3600⟩

def lateRecord : MarkRecord :=
  markRecord lateMark dropped.roots.current
    (liveKeys dropped.roots.current dropped.roots.current.body) (some earlyRecord)
    dropped.objects.keys

def relisted : State := dropped.withMark lateMark (some earlyRecord)

/-- A root that was current three nanoseconds ago referenced the pack the sweep deletes. -/
theorem revived_pack_swept_early :
    ∃ events s, Run Step pushStopped events s ∧ Unmarked pushStopped ∧
      ∃ e ∈ events, ¬ RespectsRetention e := by
  have pushes : Step listed (.commit ⟨⟨2, 2, importedBody⟩, "01B"⟩) pushed :=
    .commit _ rfl (by decide)
  have drops : Step pushed (.commit ⟨⟨3, 3, laterBody⟩, "01C"⟩) dropped :=
    .commit _ rfl (by decide)
  have unused : lateMark.id ∉ dropped.marks := by
    intro stored
    rcases (mem_insert _).mp stored with same | older
    · exact absurd same (by decide)
    · exact notMem_empty _ older
  have relists : Step dropped (.mark lateMark) relisted :=
    State.step_withMark rfl (readLatest_single (by decide) earlyRecord) unused (by decide) (by decide)
  have sweeps : Step relisted (.sweep sweepRun lateRecord)
      (relisted.withSweep sweepRun lateRecord) :=
    State.step_withSweep rfl (lookup_insert _) (by decide) (by decide)
  refine ⟨_, _, ((((Run.nil.next step_listed).next pushes).next drops).next relists).next sweeps,
    unmarked_pushStopped, _, mem_cons_self, ?_⟩
  intro respects
  have content : Content orphanPack := ⟨.canonicalPacks, by decide, rfl⟩
  have present : orphanPack ∈ dropped.objects :=
    State.mem_withRoot (State.mem_withRoot orphanPack_stored)
  -- the entry of the first mark is carried into the second
  have gone : orphanPack ∉ (relisted.withSweep sweepRun lateRecord).objects :=
    State.carried_swept rfl present rfl (orphanPack_dropped _) ⟨_, orphanPack_listed, rfl⟩
      earlyRecord_dated
      (by decide)
  have current : relisted.roots.At (hour - 1) ⟨⟨2, 2, importedBody⟩, "01B"⟩ :=
    .inr ⟨_, mem_cons_self, rfl, by decide, le_rfl⟩
  have referenced : orphanPack ∈ bodyKeys importedBody := mem_of_getElem? (i := 0) rfl
  exact respects sweepRun lateRecord rfl orphanPack content present gone (hour + 2)
    (le_rfl) (by decide) (hour - 1) _ (by decide) (by decide) current referenced

end Sequential

end BucketVcs.Gc
