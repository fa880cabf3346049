import BucketVcs.Lfs.Gc
import BucketVcs.Lib.Run
import BucketVcs.Lib.Paging
import BucketVcs.Lib.Timeline

/-! LFS uploads, pushes, marks and sweeps of one repository at once: how long an object was
stored and unreferenced before a sweep deletes it. -/

namespace BucketVcs.Lfs.Collector

open Transition List Finmap Interleave

abbrev ThreadId := Nat

abbrev Objects := Finmap fun _ : OID => Stored

variable {Root : Type}

/-- The objects the refs of a root reach, as `rev-list --objects --all` lists them in the
mirror of its packs, and the version in the root's header. -/
structure Git (Root : Type) where
  reachable : Root → List GitObject
  manifestVersion : Root → Nat

def Git.live (git : Git Root) (root : Root) : List OID := buildLiveSet (git.reachable root)

def Git.Named (git : Git Root) (root : Root) (oid : OID) : Prop := Names (git.reachable root) oid

variable {git : Git Root} {oid : OID}

theorem Git.mem_live {root : Root} : oid ∈ git.live root ↔ git.Named root oid := mem_buildLiveSet

/-- What is replaced step by step: the stored LFS objects and the root manifest. -/
structure Snapshot (Root : Type) where
  objects : Objects
  root : Root

/-- Stored, and named by no pointer blob. -/
structure Orphan (git : Git Root) (oid : OID) (snapshot : Snapshot Root) : Prop where
  stored : oid ∈ snapshot.objects
  unnamed : ¬ git.Named snapshot.root oid

/-- The bucket and the time. As history of the run, when each snapshot was current. -/
structure World (Root : Type) where
  line : Timeline.Line (Snapshot Root)
  clock : Instant
  marks : Marks

def World.objects (σ : World Root) : Objects := σ.line.current.objects

def World.root (σ : World Root) : Root := σ.line.current.root

def World.withObjects (σ : World Root) (objects : Objects) : World Root :=
  { σ with line := σ.line.replace ⟨objects, σ.root⟩ σ.clock }

def World.withRoot (σ : World Root) (root : Root) : World Root :=
  { σ with line := σ.line.replace ⟨σ.objects, root⟩ σ.clock }

def listedBefore (a b : OID × Stored) : Prop := a.1 < b.1

def underPrefix (_ : Unit) (_ : OID × Stored) : Prop := True

/-- A `RunMark` that lists, after it has built the live set of the root it read. -/
structure Marking (Root : Type) where
  startedAt : Instant
  seconds : RetentionSeconds
  root : Root
  tour : Paging.Tour Unit (OID × Stored)
  listed : List (OID × Stored)

def Marking.record (git : Git Root) (m : Marking Root) (prev : Option MarkRecord)
    (completedAt : Instant) : MarkRecord :=
  markRecord m.startedAt completedAt m.seconds (git.manifestVersion m.root) (git.live m.root) prev
    m.listed

/-- A `RunSweep` in its loop. -/
structure Sweeping where
  mark : MarkRecord
  now : Instant
  pending : List MarkCandidate

inductive Phase (Root : Type) where
  | idle
  -- `servePut`, before it compares the hash of what it has stored
  | stored (oid : OID) (version : Nat)
  -- `RunMark`
  | started (startedAt : Instant) (seconds : RetentionSeconds)
  | listing (m : Marking Root)
  | compared (m : Marking Root) (prev : Option MarkRecord)
  | marked (mark : MarkRecord)
  -- `runLFSPhase` between its phases, or with the mark it loaded
  | holding (mark : MarkRecord)
  -- `RunSweep`
  | sweeping (s : Sweeping)
  | headed (s : Sweeping) (c : MarkCandidate) (version : Nat)

inductive Label (Root : Type) where
  | work
  | upload (oid : OID)
  | commit (root : Root)
  | delete (oid : OID) (seconds : RetentionSeconds)

/-- One step of a thread. All of them read the same clock. -/
inductive Move (git : Git Root) (t : ThreadId) :
    World Root → Phase Root → Label Root → World Root → Phase Root → Prop where
  | wait {σ phase now} (later : σ.clock ≤ now) :
      Move git t σ phase .work { σ with clock := now } phase
  | abandon {σ phase} : Move git t σ phase .work σ .idle
  -- an upload to a signed URL
  | putSigned {σ} (oid : OID) (object : Stored) :
      Move git t σ .idle (.upload oid) (σ.withObjects (σ.objects.insert oid object)) .idle
  -- an upload through the gateway, which takes back what has another hash
  | putIfAbsent {σ oid} (object : Stored) (absent : oid ∉ σ.objects) :
      Move git t σ .idle (.upload oid) (σ.withObjects (σ.objects.insert oid object))
        (.stored oid object.version)
  | takeBack {σ oid version size} (current : σ.objects.lookup oid = some ⟨version, size⟩) :
      Move git t σ (.stored oid version) .work (σ.withObjects (σ.objects.erase oid)) .idle
  -- a push
  | commit {σ} (root : Root) :
      Move git t σ .idle (.commit root) (σ.withRoot root) .idle
  -- `RunMark` and `WriteMark`
  | startMark {σ} (seconds : Int) (fits : seconds ≤ maxRetentionSeconds) :
      Move git t σ .idle .work σ (.started σ.clock (normalizeRetention seconds fits))
  | readRoot {σ startedAt seconds} :
      Move git t σ (.started startedAt seconds) .work σ
        (.listing ⟨startedAt, seconds, σ.root, ⟨[()], none⟩, []⟩)
  | page {σ m page tour} (turned : Paging.Page underPrefix listedBefore
        (fun entry => σ.objects.lookup entry.1 = some entry.2) m.tour page tour) :
      Move git t σ (.listing m) .work σ
        (.listing { m with tour := tour, listed := m.listed ++ page })
  | readPrevious {σ m} (listed : m.tour.pending = []) :
      Move git t σ (.listing m) .work σ (.compared m (readLatestMark σ.marks))
  | markDone {σ m prev} :
      Move git t σ (.compared m prev) .work σ (.marked (m.record git prev σ.clock))
  | writeMark {σ mark} :
      Move git t σ (.marked mark) .work { σ with marks := writeMark σ.marks mark } (.holding mark)
  -- `--sweep-only`
  | loadMark {σ mark} (newest : readLatestMark σ.marks = some mark) :
      Move git t σ .idle .work σ (.holding mark)
  -- `RunSweep`
  | startSweep {σ mark} :
      Move git t σ (.holding mark) .work σ
        (.sweeping ⟨mark, σ.clock, (applyRetention mark.candidates σ.clock mark.retention).1⟩)
  | head {σ mark now c rest version size} (found : σ.objects.lookup c.oid = some ⟨version, size⟩) :
      Move git t σ (.sweeping ⟨mark, now, c :: rest⟩) .work σ (.headed ⟨mark, now, rest⟩ c version)
  -- the object is gone, or the request fails
  | headPasses {σ mark now c rest} :
      Move git t σ (.sweeping ⟨mark, now, c :: rest⟩) .work σ (.sweeping ⟨mark, now, rest⟩)
  | delete {σ s c version size} (current : σ.objects.lookup c.oid = some ⟨version, size⟩) :
      Move git t σ (.headed s c version) (.delete c.oid s.mark.retentionSeconds)
        (σ.withObjects (σ.objects.erase c.oid)) (.sweeping s)
  | deletePasses {σ s c version} :
      Move git t σ (.headed s c version) .work σ (.sweeping s)

abbrev State (Root : Type) := Interleave.System ThreadId (World Root) (Phase Root)

def Step (git : Git Root) : State Root → ThreadId × Label Root → State Root → Prop :=
  Interleave.Step (Move git)

abbrev Occurrence (Root : Type) := Event (State Root) (ThreadId × Label Root)

/-- What is deleted was an orphan at every moment of the retention before. -/
def StayedOrphan (git : Git Root) (e : Occurrence Root) : Prop :=
  ∀ oid seconds, e.label.2 = .delete oid seconds →
    ∀ instant : Instant, (e.pre.shared.clock : Int) - seconds.val * 1000000000 < instant →
      instant ≤ e.pre.shared.clock →
        ∀ snapshot, e.pre.shared.line.At instant snapshot → Orphan git oid snapshot

/-! ### Objects at risk -/

/-- The thread has `oid` on its list of orphans since `first`, or may come to put it there. -/
def Phase.Risks (git : Git Root) (phase : Phase Root) (oid : OID) (first : Instant) : Prop :=
  match phase with
  | .idle | .stored _ _ | .started _ _ => False
  | .listing m => ¬ git.Named m.root oid ∧ first = m.startedAt
  | .compared m prev =>
    (¬ git.Named m.root oid ∧ first = m.startedAt) ∨ ∃ mark, prev = some mark ∧ mark.Lists oid first
  | .marked mark | .holding mark => mark.Lists oid first
  | .sweeping s => ∃ c ∈ s.pending, c.oid = oid ∧ c.firstSeenUnreferencedAt = first
  | .headed s c _ => ∃ d ∈ c :: s.pending, d.oid = oid ∧ d.firstSeenUnreferencedAt = first

/-- The newest mark lists `oid`, or a mark or sweep that is under way may. -/
def AtRisk (git : Git Root) (s : State Root) (oid : OID) (first : Instant) : Prop :=
  (∃ mark, readLatestMark s.shared.marks = some mark ∧ mark.Lists oid first) ∨
    ∃ t, (s.threads t).Risks git oid first

def MarkPending (s : State Root) : Prop :=
  ∃ t startedAt seconds, s.threads t = .started startedAt seconds

/-- The step uploads no missing object that is at risk and names none, and while a mark is
pending it makes nothing an orphan. -/
structure Calm (git : Git Root) (e : Occurrence Root) : Prop where
  reborn : ∀ oid first, e.label.2 = .upload oid → oid ∉ e.pre.shared.objects →
    ¬ AtRisk git e.pre oid first
  revived : ∀ root oid first, e.label.2 = .commit root → AtRisk git e.pre oid first →
    ¬ git.Named root oid
  uploaded : ∀ oid, e.label.2 = .upload oid → oid ∉ e.pre.shared.objects → MarkPending e.pre →
    git.Named e.pre.shared.root oid
  dropped : ∀ root oid, e.label.2 = .commit root → MarkPending e.pre → oid ∈ e.pre.shared.objects →
    git.Named e.pre.shared.root oid → git.Named root oid

structure Started (s : State Root) : Prop where
  marks : s.shared.marks = ∅
  idle : ∀ t, s.threads t = .idle
  past : s.shared.line.Before s.shared.clock

section Steps

variable {git : Git Root} {t : ThreadId} {σ σ' : World Root} {phase phase' : Phase Root}
variable {l : Label Root} {oid : OID} {first : Instant}

section

variable (moved : Move git t σ phase l σ' phase')

include moved

theorem Move.snapshot :
    σ'.line = σ.line ∨ (∃ put object, l = .upload put ∧
        σ'.line = σ.line.replace ⟨σ.objects.insert put object, σ.root⟩ σ.clock) ∨
      (∃ root, l = .commit root ∧ σ'.line = σ.line.replace ⟨σ.objects, root⟩ σ.clock) ∨
      ∃ gone, σ'.line = σ.line.replace ⟨σ.objects.erase gone, σ.root⟩ σ.clock := by
  cases moved with
  | putSigned put object => exact .inr (.inl ⟨put, object, rfl, rfl⟩)
  | putIfAbsent object absent => exact .inr (.inl ⟨_, object, rfl, rfl⟩)
  | commit root => exact .inr (.inr (.inl ⟨root, rfl, rfl⟩))
  | takeBack current | delete current => exact .inr (.inr (.inr ⟨_, rfl⟩))
  | _ => exact .inl rfl

theorem Move.clock_le : σ.clock ≤ σ'.clock := by
  cases moved with
  | wait later => exact later
  | _ => exact le_rfl

theorem Move.newest {mark : MarkRecord} (newest : readLatestMark σ'.marks = some mark)
    (lists : mark.Lists oid first) :
    readLatestMark σ.marks = some mark ∨ phase.Risks git oid first := by
  cases moved with
  | writeMark =>
    rcases readLatestMark_writeMark newest with rfl | before
    · exact .inr lists
    · exact .inl before
  | _ => exact .inl newest

theorem Move.risks (risks : phase'.Risks git oid first) :
    phase.Risks git oid first ∨
      (∃ mark, readLatestMark σ.marks = some mark ∧ mark.Lists oid first) ∨
      ((∃ seconds, phase = .started first seconds) ∧ ¬ git.Named σ.root oid ∧ σ' = σ) := by
  cases moved with
  | wait later | page turned | writeMark | head found => exact .inl risks
  | abandon => cases risks
  | putSigned => cases risks
  | putIfAbsent => cases risks
  | takeBack => cases risks
  | commit => cases risks
  | startMark => cases risks
  | @readRoot startedAt seconds =>
    obtain ⟨unnamed, rfl⟩ := risks
    exact .inr (.inr ⟨⟨seconds, rfl⟩, unnamed, rfl⟩)
  | readPrevious listed =>
    rcases risks with fresh | carried
    · exact .inl fresh
    · exact .inr (.inl carried)
  | markDone =>
    obtain ⟨unnamed, dated⟩ := risks.of_markRecord
    rw [Git.mem_live] at unnamed
    rcases dated with fresh | carried
    · exact .inl (.inl ⟨unnamed, fresh⟩)
    · exact .inl (.inr carried)
  | loadMark newest => exact .inr (.inl ⟨_, newest, risks⟩)
  | startSweep =>
    obtain ⟨c, member, same⟩ := risks
    exact .inl ⟨c, (mem_applyRetention.mp member).1, same⟩
  | headPasses | delete current | deletePasses =>
    obtain ⟨c, member, same⟩ := risks
    exact .inl ⟨c, mem_cons_of_mem _ member, same⟩

theorem Move.quiet (quiet : σ.line.Quiet (fun snapshot => ¬ Orphan git oid snapshot) first)
    (uploads : l = .upload oid → oid ∉ σ.objects → git.Named σ.root oid)
    (commits : ∀ root, l = .commit root → oid ∈ σ.objects → git.Named σ.root oid →
      git.Named root oid) :
    σ'.line.Quiet (fun snapshot => ¬ Orphan git oid snapshot) first := by
  rcases moved.snapshot with same | ⟨put, object, label, same⟩ | ⟨root, label, same⟩ | ⟨gone, same⟩ <;>
    rw [same]
  · exact quiet
  · apply quiet.replace
    intro kept orphan
    apply kept
    refine ⟨?_, orphan.unnamed⟩
    by_contra absent
    rcases mem_insert.mp orphan.stored with rfl | before
    · exact orphan.unnamed (uploads label absent)
    · exact absent before
  · apply quiet.replace
    intro kept orphan
    apply kept
    refine ⟨orphan.stored, ?_⟩
    intro named
    exact orphan.unnamed (commits root label orphan.stored named)
  · apply quiet.replace
    intro kept orphan
    exact kept ⟨(mem_erase.mp orphan.stored).2, orphan.unnamed⟩

theorem Move.unnamed (unnamed : ¬ git.Named σ.root oid)
    (commits : ∀ root, l = .commit root → ¬ git.Named root oid) : ¬ git.Named σ'.root oid := by
  unfold World.root
  rcases moved.snapshot with same | ⟨put, object, label, same⟩ | ⟨root, label, same⟩ | ⟨gone, same⟩ <;>
    rw [same]
  · exact unnamed
  · exact unnamed
  · exact commits root label
  · exact unnamed

end

/-- What a sweep has on its list was first seen a retention before it was started. -/
def Phase.Due (clock : Instant) : Phase Root → Prop
  | .sweeping s => s.now ≤ clock ∧ ∀ c ∈ s.pending,
      (c.firstSeenUnreferencedAt : Int) ≤ s.now - s.mark.retention
  | .headed s c _ => s.now ≤ clock ∧ ∀ d ∈ c :: s.pending,
      (d.firstSeenUnreferencedAt : Int) ≤ s.now - s.mark.retention
  | _ => True

theorem Phase.Due.mono {clock later : Instant} (due : phase.Due clock) (le : clock ≤ later) :
    phase.Due later := by
  cases phase with
  | sweeping s | headed s c version => exact ⟨le_trans due.1 le, due.2⟩
  | _ => trivial

theorem Move.due (moved : Move git t σ phase l σ' phase') (due : phase.Due σ.clock) :
    phase'.Due σ'.clock := by
  cases moved with
  | wait later => exact due.mono later
  | startSweep => exact ⟨le_rfl, fun c member => (mem_applyRetention.mp member).2⟩
  | head found => exact due
  | headPasses | delete current | deletePasses =>
    exact ⟨due.1, fun c member => due.2 c (mem_cons_of_mem _ member)⟩
  | _ => trivial

theorem Move.pending (moved : Move git t σ phase l σ' phase') {startedAt : Instant}
    {seconds : RetentionSeconds} (started : phase' = .started startedAt seconds) :
    phase = .started startedAt seconds ∨ (startedAt = σ.clock ∧ σ' = σ) := by
  cases moved with
  | wait later => exact .inl started
  | startMark =>
    cases started
    exact .inr ⟨rfl, rfl⟩
  | _ => cases started

end Steps

/-! ### The invariant -/

/-- What is at risk is no orphan, or has been one since the time it is listed with. -/
structure Safe (git : Git Root) (s : State Root) : Prop where
  past : s.shared.line.Before s.shared.clock
  pending : ∀ t startedAt seconds, s.threads t = .started startedAt seconds →
    ∀ oid, s.shared.line.Quiet (fun snapshot => ¬ Orphan git oid snapshot) startedAt
  dated : ∀ oid first, AtRisk git s oid first →
    s.shared.line.Quiet (fun snapshot => ¬ Orphan git oid snapshot) first ∧
      ¬ git.Named s.shared.root oid
  due : ∀ t, (s.threads t).Due s.shared.clock

section Invariant

variable {git : Git Root} {s s' : State Root} {tl : ThreadId × Label Root}

theorem Started.safe (started : Started s) : Safe git s where
  past := started.past
  pending t startedAt seconds here := by
    rw [started.idle t] at here
    cases here
  dated oid first risk := by
    rcases risk with ⟨mark, newest, -⟩ | ⟨t, risks⟩
    · obtain ⟨id, found, -⟩ := readLatestMark_eq_some.mp newest
      rw [started.marks] at found
      cases found
    · rw [started.idle t] at risks
      cases risks
  due t := by
    rw [started.idle t]
    trivial

variable {oid : OID}

theorem AtRisk.before {first : Instant} (step : Step git s tl s') (risk : AtRisk git s' oid first) :
    AtRisk git s oid first ∨
      ((∃ seconds, s.threads tl.1 = .started first seconds) ∧ ¬ git.Named s.shared.root oid ∧
        s'.shared = s.shared) := by
  obtain ⟨moved, kept⟩ := Interleave.Step.moved step
  rcases risk with ⟨mark, newest, lists⟩ | ⟨t, risks⟩
  · rcases moved.newest newest lists with before | risks
    · exact .inl (.inl ⟨mark, before, lists⟩)
    · exact .inl (.inr ⟨tl.1, risks⟩)
  · by_cases same : t = tl.1
    · subst same
      rcases moved.risks risks with before | newest | fresh
      · exact .inl (.inr ⟨tl.1, before⟩)
      · exact .inl (.inl newest)
      · exact .inr fresh
    · rw [kept t same] at risks
      exact .inl (.inr ⟨t, risks⟩)

theorem Safe.step (safe : Safe git s) (calm : Calm git ⟨s, tl, s'⟩) (step : Step git s tl s') :
    Safe git s' := by
  obtain ⟨moved, kept⟩ := Interleave.Step.moved step
  refine ⟨?_, ?_, ?_, ?_⟩
  · rcases moved.snapshot with same | ⟨_, _, _, same⟩ | ⟨_, _, same⟩ | ⟨_, same⟩ <;> rw [same]
    · exact safe.past.mono moved.clock_le
    all_goals exact (safe.past.replace (le_rfl) _).mono moved.clock_le
  · intro t startedAt seconds here oid
    have before : s.threads t = .started startedAt seconds ∨
        (startedAt = s.shared.clock ∧ s'.shared = s.shared) := by
      by_cases same : t = tl.1
      · subst same
        exact moved.pending here
      · exact .inl ((kept t same).symm.trans here)
    rcases before with before | ⟨rfl, same⟩
    · have waits : MarkPending s := ⟨t, startedAt, seconds, before⟩
      apply moved.quiet (safe.pending t startedAt seconds before oid)
      · intro label absent
        exact calm.uploaded oid label absent waits
      · intro root label stored named
        exact calm.dropped root oid label waits stored named
    · rw [same]
      exact safe.past.quiet _ (le_rfl)
  · intro oid first risk
    rcases risk.before step with before | ⟨⟨seconds, started⟩, unnamed, same⟩
    · obtain ⟨quiet, unnamed⟩ := safe.dated oid first before
      constructor
      · apply moved.quiet quiet
        · intro label absent
          exact absurd before (calm.reborn oid first label absent)
        · intro root label stored named
          exact absurd named unnamed
      · exact moved.unnamed unnamed fun root label => calm.revived root oid first label before
    · rw [same]
      exact ⟨safe.pending _ _ _ started oid, unnamed⟩
  · intro t
    by_cases same : t = tl.1
    · subst same
      exact moved.due (safe.due tl.1)
    · rw [kept t same]
      exact (safe.due t).mono moved.clock_le

theorem Move.deletes {t : ThreadId} {σ σ' : World Root} {phase phase' : Phase Root}
    {seconds : RetentionSeconds} (moved : Move git t σ phase (.delete oid seconds) σ' phase')
    (due : phase.Due σ.clock) :
    oid ∈ σ.objects ∧ ∃ first : Instant, phase.Risks git oid first ∧
      (first : Int) ≤ σ.clock - seconds.val * 1000000000 := by
  cases moved with
  | @delete s c version size current =>
    refine ⟨mem_of_lookup_eq_some current, c.firstSeenUnreferencedAt,
      ⟨c, mem_cons_self, rfl, rfl⟩, ?_⟩
    have listed := due.2 c mem_cons_self
    have started : (s.now : Int) ≤ σ.clock := Int.ofNat_le.mpr due.1
    rw [s.mark.retention_eq] at listed
    omega

theorem Safe.delete (safe : Safe git s) (step : Step git s tl s') :
    StayedOrphan git ⟨s, tl, s'⟩ := by
  obtain ⟨moved, -⟩ := Interleave.Step.moved step
  intro oid seconds label instant after before snapshot current
  obtain ⟨t, l⟩ := tl
  cases label
  obtain ⟨stored, first, risks, due⟩ := moved.deletes (safe.due t)
  obtain ⟨quiet, unnamed⟩ := safe.dated oid first (.inr ⟨t, risks⟩)
  have orphan : Orphan git oid s.shared.line.current := ⟨stored, unnamed⟩
  have window : (s.shared.clock : Int) - seconds.val * 1000000000 < instant := after
  have later : first < instant := Int.ofNat_lt.mp (by omega)
  exact not_not.mp (quiet.not_at (not_not.mpr orphan) later current)

end Invariant

/-- In every interleaving in which no object at risk is uploaded again or named by a push,
and nothing turns into an orphan while a mark is pending, a sweep deletes only what has been
an orphan for the retention. -/
theorem swept_objects_stayed_orphans (git : Git Root) {start s : State Root}
    {events : List (Occurrence Root)} (started : Started start) (run : Run (Step git) start events s)
    (calm : ∀ e ∈ events, Calm git e) : ∀ e ∈ events, StayedOrphan git e :=
  run.every_event started.safe (fun _ _ _ safe admitted step => safe.step admitted step)
    (fun _ _ _ safe _ step => safe.delete step) calm

/-! ### One invocation on a repository with a single LFS object -/

variable {e : Occurrence Root}

theorem Calm.work (work : e.label.2 = .work) : Calm git e := by
  constructor <;> intros <;> simp_all

theorem Calm.delete {seconds : RetentionSeconds} (label : e.label.2 = .delete oid seconds) :
    Calm git e := by
  constructor <;> intros <;> simp_all

section Single

variable {git : Git Root} {start s : State Root} {allowed : Occurrence Root → Prop} {t : ThreadId}
variable {oid : OID} {object : Stored} {seconds : Int} {fits : seconds ≤ maxRetentionSeconds}

def singleMark (git : Git Root) (σ : World Root) (seconds : RetentionSeconds) (oid : OID)
    (object : Stored) : MarkRecord :=
  markRecord σ.clock σ.clock seconds (git.manifestVersion σ.root) (git.live σ.root)
    (readLatestMark σ.marks) [(oid, object)]

def singleCandidate (σ : World Root) (oid : OID) (object : Stored) : MarkCandidate :=
  ⟨oid, object.size, ((carryForward (readLatestMark σ.marks)).lookup oid).getD σ.clock⟩

variable {σ : World Root}

theorem candidates_singleMark {seconds : RetentionSeconds} (valid : isLowerHex64 oid = true)
    (unnamed : ¬ git.Named σ.root oid) :
    (singleMark git σ seconds oid object).candidates = [singleCandidate σ oid object] := by
  rw [← Git.mem_live] at unnamed
  simp [singleMark, markRecord, candidate, valid, unnamed, sortByOid, singleCandidate]

theorem applyRetention_single {c : MarkCandidate} {now : Instant} {retention : Int}
    (due : (c.firstSeenUnreferencedAt : Int) ≤ now - retention) :
    (applyRetention [c] now retention).1 = [c] := by
  simp [applyRetention, sortByOid, due]

def World.swept (git : Git Root) (σ : World Root) (seconds : RetentionSeconds) (oid : OID)
    (object : Stored) (later : Instant) : World Root :=
  { σ with
    clock := later
    marks := Lfs.writeMark σ.marks (singleMark git σ seconds oid object) }

def singleHeaded (git : Git Root) (σ : World Root) (seconds : RetentionSeconds) (oid : OID)
    (object : Stored) (later : Instant) : Phase Root :=
  .headed ⟨singleMark git σ seconds oid object, later, []⟩ (singleCandidate σ oid object)
    object.version

def World.bare (git : Git Root) (σ : World Root) (seconds : RetentionSeconds) (oid : OID)
    (object : Stored) (later : Instant) : World Root :=
  (σ.swept git seconds oid object later).withObjects (σ.objects.erase oid)

theorem reached_headed (work : ∀ e : Occurrence Root, e.label.2 = .work → allowed e)
    (reached : Reached (Move git) allowed start s) (idle : s.threads t = .idle)
    (valid : isLowerHex64 oid = true) (unnamed : ¬ git.Named s.shared.root oid)
    (only : s.shared.objects = Finmap.singleton oid object) {later : Instant}
    (forward : s.shared.clock ≤ later)
    (due : ((singleCandidate s.shared oid object).firstSeenUnreferencedAt : Int) ≤
      later - (normalizeRetention seconds fits).val * 1000000000) :
    Reached (Move git) allowed start
      (advance s t
        (s.shared.swept git (normalizeRetention seconds fits) oid object later)
        (singleHeaded git s.shared (normalizeRetention seconds fits) oid object later)) := by
  have listing : ∀ entry : OID × Stored, entry ∈ [(oid, object)] ↔
      s.shared.objects.lookup entry.1 = some entry.2 := by
    rintro ⟨key, value⟩
    rw [only]
    by_cases same : key = oid
    · subst same
      simp [eq_comm]
    · simp [same, lookup_eq_none.mpr]
  have turned : Paging.Page underPrefix listedBefore
      (fun entry => s.shared.objects.lookup entry.1 = some entry.2) ⟨[()], none⟩ [(oid, object)]
      ⟨[], none⟩ :=
    .final fun entry => by simp [listing, underPrefix, Paging.After]
  have started := reached.take t idle (.startMark seconds fits) (work _ rfl)
  have rooted := started.again .readRoot (work _ rfl)
  have paged := rooted.again (.page turned) (work _ rfl)
  have compared := paged.again (.readPrevious rfl) (work _ rfl)
  have marked := compared.again .markDone (work _ rfl)
  have written := marked.again .writeMark (work _ rfl)
  have waited := written.again (.wait forward) (work _ rfl)
  have swept := waited.again .startSweep (work _ rfl)
  have pending : (applyRetention (singleMark git s.shared (normalizeRetention seconds fits) oid
      object).candidates later (singleMark git s.shared (normalizeRetention seconds fits) oid
        object).retention).1 = [singleCandidate s.shared oid object] := by
    rw [MarkRecord.retention_eq, candidates_singleMark valid unnamed]
    exact applyRetention_single due
  have found : s.shared.objects.lookup oid = some object := by
    rw [only, lookup_singleton_eq]
  exact (pending ▸ swept).again (.head found) (work _ rfl)

theorem move_deletes {seconds : RetentionSeconds} {later : Instant}
    (only : σ.objects = Finmap.singleton oid object) :
    Move git t (σ.swept git seconds oid object later) (singleHeaded git σ seconds oid object later)
      (.delete oid seconds) (σ.bare git seconds oid object later)
      (.sweeping ⟨singleMark git σ seconds oid object, later, []⟩) := by
  apply Move.delete
  change σ.objects.lookup oid = some object
  rw [only, lookup_singleton_eq]

end Single

def emptyGit : Git (List GitObject) := ⟨id, fun _ => 1⟩

def lostOid : OID := List.replicate 64 0x30

def lostObject : Stored := ⟨1, 5⟩

def lostStart : State (List GitObject) :=
  ⟨⟨⟨⟨Finmap.singleton lostOid lostObject, []⟩, 0, []⟩, 0, ∅⟩, fun _ => .idle⟩

theorem started_lostStart : Started lostStart where
  marks := rfl
  idle _ := rfl
  past := ⟨le_refl 0, fun span member => by cases member⟩

theorem valid_lostOid : isLowerHex64 lostOid = true := by decide

theorem unnamed_empty : ¬ emptyGit.Named [] oid := by
  rintro ⟨bytes, member, -⟩
  cases member

def oneDay : RetentionSeconds := normalizeRetention 86400 (by decide)

def dayLater : Instant := 86400000000000

theorem first_lostStart :
    (singleCandidate lostStart.shared lostOid lostObject).firstSeenUnreferencedAt = 0 := rfl

theorem reached_due {allowed : Occurrence (List GitObject) → Prop}
    (work : ∀ e : Occurrence (List GitObject), e.label.2 = .work → allowed e) :
    Reached (Move emptyGit) allowed lostStart
      (advance lostStart 0
        (lostStart.shared.swept emptyGit oneDay lostOid lostObject dayLater)
        (singleHeaded emptyGit lostStart.shared oneDay lostOid lostObject dayLater)) := by
  apply reached_headed work (reached_start lostStart) rfl valid_lostOid unnamed_empty rfl
  · exact Nat.zero_le _
  · rw [first_lostStart]
    decide

theorem swept_objects_stayed_orphans_sample :
    ∃ events s, Run (Step emptyGit) lostStart events s ∧
      ∃ e ∈ events, e.label = (0, .delete lostOid oneDay) ∧ StayedOrphan emptyGit e := by
  obtain ⟨events, run, calm⟩ : Interleave.Reached (Move emptyGit) (Calm emptyGit) lostStart _ :=
    reached_due fun _ => .work
  have stepped := extend run 0 (advance_self ..) (move_deletes rfl)
  refine ⟨_, _, stepped, _, mem_cons_self, rfl, ?_⟩
  apply swept_objects_stayed_orphans emptyGit started_lostStart stepped _ _ mem_cons_self
  intro e member
  rcases mem_cons.mp member with rfl | older
  · exact .delete rfl
  · exact calm e older

def rebornWorld : World (List GitObject) :=
  { (lostStart.shared.bare emptyGit oneDay lostOid lostObject dayLater) with
    clock := dayLater + 1 }.withObjects (Finmap.singleton lostOid lostObject)

theorem reached_reborn : Reached (Move emptyGit) (fun _ => True) lostStart
    (advance lostStart 0 rebornWorld .idle) := by
  have swept := (reached_due fun _ _ => trivial).again (move_deletes rfl) trivial
  have stopped := swept.again .abandon trivial
  have waited := stopped.again (.wait (Nat.le_succ _)) trivial
  exact waited.again (.putSigned lostOid lostObject) trivial

theorem reached_reborn_due : Reached (Move emptyGit) (fun _ => True) lostStart
    (advance (advance lostStart 0 rebornWorld .idle) 0
      (rebornWorld.swept emptyGit oneDay lostOid lostObject (dayLater + 2))
      (singleHeaded emptyGit rebornWorld oneDay lostOid lostObject (dayLater + 2))) := by
  apply reached_headed (fun _ _ => trivial) reached_reborn (advance_self ..)
    valid_lostOid unnamed_empty rfl
  · exact Nat.le_succ (dayLater + 1)
  · change ((singleCandidate rebornWorld lostOid lostObject).firstSeenUnreferencedAt : Int) ≤ _
    decide

/-- The next invocation finds the new object with the age of the old one, and deletes it a
moment after it was uploaded. -/
theorem reborn_object_swept_at_once : Started lostStart ∧
    ∃ events s, Run (Step emptyGit) lostStart events s ∧
      ∃ e ∈ events, ¬ StayedOrphan emptyGit e := by
  refine ⟨started_lostStart, ?_⟩
  obtain ⟨events, run, -⟩ := reached_reborn_due
  have stepped := extend run 0 (advance_self ..) (move_deletes rfl)
  refine ⟨_, _, stepped, _, mem_cons_self, ?_⟩
  intro stayed
  -- between the first sweep and the upload it was not there
  have absent : rebornWorld.line.At (dayLater + 1) ⟨lostStart.shared.objects.erase lostOid, []⟩ :=
    .inr ⟨_, mem_cons_self, rfl, Nat.le_succ _, le_rfl⟩
  have orphan := stayed lostOid oneDay rfl (dayLater + 1) (by decide) (Nat.le_succ _) _ absent
  exact (mem_erase.mp orphan.stored).1 rfl

end BucketVcs.Lfs.Collector
