import BucketVcs.Gc.Retention
import BucketVcs.Lib.Paging

/-! Writers and collectors of one repository at once, each moving from storage operation to
storage operation. -/

namespace BucketVcs.Gc.Collector

open Manifest List AList

abbrev ThreadId := Nat

def listedBefore (a b : Key) : Prop :=
  List.Lex (fun x y : Char => x.toNat < y.toNat) a.toList b.toList

def inArea (area : Area) (key : Key) : Prop := under area.path key = true

/-- The bucket, and as history of the run the objects there were when the current root was
committed. -/
structure World where
  bucket : Bucket
  committed : Objects

def World.put (σ : World) (key : Key) (version : Nat) : World :=
  { σ with bucket := { σ.bucket with objects := putIfAbsent σ.bucket.objects key version } }

def World.replaceRoot (σ : World) (next : View) : World :=
  { bucket := { σ.bucket with root := next }, committed := σ.bucket.objects }

def World.withObjects (σ : World) (objects : Objects) : World :=
  { σ with bucket := { σ.bucket with objects := objects } }

def World.withMarks (σ : World) (marks : Marks) : World :=
  { σ with bucket := { σ.bucket with marks := marks } }

/-- A `RunMark` that lists: the root it read, the mark it starts from, how far its listings
have come and what they returned. -/
structure Marking where
  run : MarkRun
  view : View
  prev : Option MarkRecord
  tour : Paging.Tour Area Key
  listed : List Key

def Marking.live (m : Marking) : List Key := liveKeys m.view m.view.body

def Marking.record (m : Marking) : MarkRecord := markRecord m.run m.view m.live m.prev m.listed

/-- A `RunSweep` in its loop. `checked` says of an orphan marker at the head of `pending`
that its record was looked for in vain. -/
structure Sweeping where
  mark : MarkRecord
  live : List Key
  now : Instant
  pending : List Target
  checked : Bool

def Sweeping.decides (s : Sweeping) (target : Target) : Decision :=
  decision s.mark s.live s.now target

def Sweeping.next (s : Sweeping) (rest : List Target) : Sweeping :=
  { s with pending := rest, checked := false }

inductive Phase where
  | idle
  -- `Repo.Commit`
  | called (view : View)
  | built (view : View) (body : Body)
  | written (view : View) (body : Body) (tx : TxID)
  | landed (tx : TxID)
  -- `RunMark`
  | rooted (run : MarkRun) (view : View)
  | picked (run : MarkRun) (view : View) (id : MarkID)
  | marking (m : Marking)
  -- `Run` between its phases, or with the mark it loaded
  | loading (id : MarkID)
  | holding (mark : MarkRecord)
  -- `RunSweep`
  | started (mark : MarkRecord) (now : Instant)
  | sweeping (s : Sweeping)
  | headed (s : Sweeping) (target : Target) (version : Nat)

inductive Label where
  | work
  | commit (next : View)
  | marker (tx : TxID)
  | delete (key : Key)

/-- One step of a thread. Clocks are not assumed to agree. -/
inductive Move (t : ThreadId) : World → Phase → Label → World → Phase → Prop where
  | abandon {σ phase} : Move t σ phase .work σ .idle
  -- a writer: uploads, then `Repo.Commit`, whose callback may upload shards
  | upload {σ key} (version : Nat) (content : Immutable key) :
      Move t σ .idle .work (σ.put key version) .idle
  | readRoot {σ} : Move t σ .idle .work σ (.called σ.bucket.root)
  | uploadShard {σ view key} (version : Nat) (content : Immutable key) :
      Move t σ (.called view) .work (σ.put key version) (.called view)
  | callback {σ view} (body : Body) :
      Move t σ (.called view) .work σ (.built view body)
  | writeTx {σ view body tx} (version : Nat)
      (fresh : txRecordKey tx ∉ σ.bucket.objects) :
      Move t σ (.built view body) .work (σ.put (txRecordKey tx) version) (.written view body tx)
  | casTaken {σ view body tx} (version : Nat)
      (current : σ.bucket.root.version = view.version) :
      Move t σ (.written view body tx) (.commit ⟨⟨view.manifestVersion + 1, version, body⟩, tx⟩)
        (σ.replaceRoot ⟨⟨view.manifestVersion + 1, version, body⟩, tx⟩) (.landed tx)
  | casRefused {σ view body tx} (stale : σ.bucket.root.version ≠ view.version) :
      Move t σ (.written view body tx) .work σ .idle
  | marker {σ tx} (version : Nat) :
      Move t σ (.landed tx) (.marker tx) (σ.put (commitMarkerKey tx) version) .idle
  -- `RunMark`: the root, the newest mark, the listings
  | startMark {σ} (run : MarkRun) (valid : validateBody σ.bucket.root.body = .ok ()) :
      Move t σ .idle .work σ (.rooted run σ.bucket.root)
  | noMark {σ run view} (first : (listMarks σ.bucket.marks).head? = none) :
      Move t σ (.rooted run view) .work σ (.marking ⟨run, view, none, ⟨areas, none⟩, []⟩)
  | pickMark {σ run view id} (newest : (listMarks σ.bucket.marks).head? = some id) :
      Move t σ (.rooted run view) .work σ (.picked run view id)
  | readMark {σ run view id mark} (found : σ.bucket.marks.lookup id = some (some mark)) :
      Move t σ (.picked run view id) .work σ (.marking ⟨run, view, some mark, ⟨areas, none⟩, []⟩)
  | markGone {σ run view id} (gone : σ.bucket.marks.lookup id = none) :
      Move t σ (.picked run view id) .work σ (.marking ⟨run, view, none, ⟨areas, none⟩, []⟩)
  | page {σ m page tour}
      (turned : Paging.Page inArea listedBefore (fun key => key ∈ σ.bucket.objects) m.tour page
        tour) :
      Move t σ (.marking m) .work σ (.marking { m with tour := tour, listed := m.listed ++ page })
  | marked {σ m} (listed : m.tour.pending = []) :
      Move t σ (.marking m) .work σ (.holding m.record)
  | writeMark {σ mark} (unused : mark.markID ∉ σ.bucket.marks) :
      Move t σ (.holding mark) .work
        (σ.withMarks (σ.bucket.marks.insert mark.markID (some mark))) (.holding mark)
  -- `SweepOnly`: the newest mark is loaded
  | pickLatest {σ id} (newest : (listMarks σ.bucket.marks).head? = some id) :
      Move t σ .idle .work σ (.loading id)
  | load {σ id mark} (found : σ.bucket.marks.lookup id = some (some mark)) :
      Move t σ (.loading id) .work σ (.holding mark)
  -- `RunSweep`: the root, then each candidate
  | startSweep {σ mark} (now : Instant) :
      Move t σ (.holding mark) .work σ (.started mark now)
  | readLive {σ mark now} (valid : validateBody σ.bucket.root.body = .ok ()) :
      Move t σ (.started mark now) .work σ
        (.sweeping ⟨mark, liveKeys σ.bucket.root σ.bucket.root.body, now, mark.targets, false⟩)
  | recordBack {σ s target rest}
      (pending : s.pending = target :: rest) (unchecked : s.checked = false)
      (back : recordIsBack σ.bucket.objects target = true) :
      Move t σ (.sweeping s) .work σ (.sweeping (s.next rest))
  | recordGone {σ s target rest}
      (pending : s.pending = target :: rest) (marker : target.category = .orphanMarkers)
      (unchecked : s.checked = false) (gone : recordIsBack σ.bucket.objects target = false) :
      Move t σ (.sweeping s) .work σ (.sweeping { s with checked := true })
  | fails {σ s target rest} (pending : s.pending = target :: rest) :
      Move t σ (.sweeping s) .work σ (.sweeping (s.next rest))
  | skip {σ s target rest} (pending : s.pending = target :: rest)
      (ready : target.category = .orphanMarkers → s.checked = true)
      (kept : s.decides target ≠ .delete) :
      Move t σ (.sweeping s) .work σ (.sweeping (s.next rest))
  | head {σ s target rest version} (pending : s.pending = target :: rest)
      (ready : target.category = .orphanMarkers → s.checked = true)
      (decided : s.decides target = .delete)
      (found : σ.bucket.objects.lookup target.candidate.key = some version) :
      Move t σ (.sweeping s) .work σ (.headed (s.next rest) target version)
  | headMissing {σ s target rest} (pending : s.pending = target :: rest)
      (ready : target.category = .orphanMarkers → s.checked = true)
      (decided : s.decides target = .delete)
      (gone : σ.bucket.objects.lookup target.candidate.key = none) :
      Move t σ (.sweeping s) .work σ (.sweeping (s.next rest))
  | delete {σ s target version left}
      (deleted : deleteIfVersionMatches σ.bucket.objects target.candidate.key version = .ok left) :
      Move t σ (.headed s target version) (.delete target.candidate.key) (σ.withObjects left)
        (.sweeping s)
  | deleteFails {σ s target version reason}
      (refused : deleteIfVersionMatches σ.bucket.objects target.candidate.key version =
        .error reason) :
      Move t σ (.headed s target version) .work σ (.sweeping s)
  | prune {σ id} (old : id ∈ pruned σ.bucket.marks) :
      Move t σ .idle .work (σ.withMarks (σ.bucket.marks.erase id)) .idle

abbrev System := Interleave.System ThreadId World Phase

abbrev Step : System → ThreadId × Label → System → Prop := Interleave.Step Move

def start (root : View) (objects : Objects) : System :=
  ⟨⟨⟨root, objects, ∅⟩, objects⟩, fun _ => .idle⟩

/-! What one step can do to the bucket. -/

variable {key : Key} {t : ThreadId} {σ σ' : World} {phase phase' : Phase} {l : Label}

theorem lookup_putIfAbsent {objects : Objects} {other : Key} {version : Nat}
    (present : key ∈ objects) :
    (putIfAbsent objects other version).lookup key = objects.lookup key := by
  unfold putIfAbsent
  split
  · rfl
  · next absent =>
      apply lookup_insert_ne
      rintro rfl
      exact absent present

section

variable (moved : Move t σ phase l σ' phase')
include moved

theorem Move.added (member : key ∈ σ'.bucket.objects) :
    key ∈ σ.bucket.objects ∨ Immutable key ∨ (∃ tx, key = txRecordKey tx) ∨
      ∃ tx, l = .marker tx ∧ key = commitMarkerKey tx := by
  cases moved with
  | upload _ content | uploadShard _ content =>
    rcases mem_putIfAbsent.mp member with rfl | old
    · exact .inr (.inl content)
    · exact .inl old
  | writeTx _ fresh =>
    rcases mem_putIfAbsent.mp member with rfl | old
    · exact .inr (.inr (.inl ⟨_, rfl⟩))
    · exact .inl old
  | marker _ =>
    rcases mem_putIfAbsent.mp member with rfl | old
    · exact .inr (.inr (.inr ⟨_, rfl, rfl⟩))
    · exact .inl old
  | delete deleted => exact .inl ((mem_deleteIfVersionMatches deleted).mp member).2
  | _ => exact .inl member

theorem Move.kept (present : key ∈ σ.bucket.objects) :
    σ'.bucket.objects.lookup key = σ.bucket.objects.lookup key ∨
      ∃ s target version, phase = .headed s target version ∧ target.candidate.key = key ∧
        σ.bucket.objects.lookup key = some version := by
  cases moved with
  | upload | uploadShard | writeTx | marker => exact .inl (lookup_putIfAbsent present)
  | @delete s target version left deleted =>
    by_cases same : target.candidate.key = key
    · refine .inr ⟨s, target, version, rfl, same, ?_⟩
      rw [← same]
      exact (deleteIfVersionMatches_ok deleted).1
    · left
      rw [(deleteIfVersionMatches_ok deleted).2]
      exact lookup_erase_ne (.symm same)
  | _ => exact .inl rfl

theorem Move.root :
    (σ'.bucket.root = σ.bucket.root ∧ σ'.committed = σ.committed) ∨
      ∃ next tx, l = .commit next ∧ σ' = σ.replaceRoot next ∧ phase' = .landed tx := by
  cases moved with
  | casTaken version current => exact .inr ⟨_, _, rfl, rfl, rfl⟩
  | _ => exact .inl ⟨rfl, rfl⟩

/-! A `RunMark` or a `RunSweep` that is left alone can do, step by step, what the function
of that name computes in one go. -/

end

open Interleave Transition

def Calm (allowed : Event System (ThreadId × Label) → Prop) : Prop :=
  ∀ e, e.label.2 = .work ∨ (∃ key, e.label.2 = .delete key) → allowed e

variable {allowed : Event System (ThreadId × Label) → Prop} {origin s : System} {t : ThreadId}
variable {σ : World}

theorem Calm.work (calm : Calm allowed) {phase phase' : Phase} {σ' : World}
    (reached : Reached Move allowed origin (advance s t σ phase))
    (moved : Move t σ phase .work σ' phase') :
    Reached Move allowed origin (advance s t σ' phase') :=
  reached.again moved (calm _ (.inl rfl))

/-! Marking. -/

def listing (objects : Objects) : List Key :=
  areas.flatMap fun area => objects.keys.filter (under area.path)

variable {objects : Objects} {key : Key} {prev : Option MarkRecord} {run : MarkRun}
  {mark : MarkRecord} {sw : Sweeping} {target : Target} {rest : List Target} {progress : Progress}
  {keys : List Key}

theorem mem_listing :
    key ∈ listing objects ↔ key ∈ objects ∧ ∃ area ∈ areas, under area.path key = true := by
  simp only [listing, mem_flatMap, mem_filter]
  constructor
  · rintro ⟨area, pending, present, inside⟩
    exact ⟨present, area, pending, inside⟩
  · rintro ⟨present, area, pending, inside⟩
    exact ⟨area, pending, present, inside⟩

theorem reached_listing (calm : Calm allowed) {m : Marking} (pending : List Area)
    (tour : m.tour = ⟨pending, none⟩)
    (reached : Reached Move allowed origin (advance s t σ (.marking m))) :
    Reached Move allowed origin (advance s t σ (.marking { m with
      tour := ⟨[], none⟩
      listed := m.listed ++
        pending.flatMap fun area => σ.bucket.objects.keys.filter (under area.path) })) := by
  induction pending generalizing m with
  | nil =>
    have same : m = { m with tour := ⟨[], none⟩, listed := m.listed ++ [] } := by
      rw [append_nil, ← tour]
    rw [flatMap_nil, ← same]
    exact reached
  | cons area rest ih =>
    have turned : Paging.Page inArea listedBefore (fun key => key ∈ σ.bucket.objects) m.tour
        (σ.bucket.objects.keys.filter (under area.path)) ⟨rest, none⟩ := by
      rw [tour]
      apply Paging.Page.final
      intro key
      rw [mem_filter]
      exact ⟨fun found => ⟨found.1, found.2, Paging.after_none⟩, fun found => ⟨found.1, found.2.1⟩⟩
    have next := ih rfl (calm.work reached (.page turned))
    rw [flatMap_cons, ← append_assoc]
    exact next

theorem reached_mark (calm : Calm allowed) (run : MarkRun)
    (valid : validateBody σ.bucket.root.body = .ok ()) (read : readLatest σ.bucket.marks = .ok prev)
    (reached : Reached Move allowed origin (advance s t σ .idle)) :
    Reached Move allowed origin (advance s t σ (.holding (markRecord run σ.bucket.root
      (liveKeys σ.bucket.root σ.bucket.root.body) prev (listing σ.bucket.objects)))) := by
  have rooted := calm.work reached (.startMark run valid)
  have lists : Reached Move allowed origin
      (advance s t σ (.marking ⟨run, σ.bucket.root, prev, ⟨areas, none⟩, []⟩)) := by
    cases newest : (listMarks σ.bucket.marks).head? with
    | none =>
      have first : prev = none := by
        rw [readLatest, newest] at read
        exact (Except.ok.inj read).symm
      rw [first]
      exact calm.work rooted (.noMark newest)
    | some id =>
      have picked := calm.work rooted (.pickMark newest)
      cases found : σ.bucket.marks.lookup id with
      | none =>
        have lost : prev = none := by
          rw [readLatest, newest] at read
          simp only [found] at read
          exact (Except.ok.inj read).symm
        rw [lost]
        exact calm.work picked (.markGone found)
      | some entry =>
        rw [readLatest, newest] at read
        simp only [found] at read
        cases entry with
        | none => cases read
        | some mark =>
          rw [← Except.ok.inj read]
          exact calm.work picked (.readMark found)
  have listed := reached_listing calm areas rfl lists
  rw [nil_append] at listed
  exact calm.work listed (.marked rfl)

theorem mem_keys_listing {view : View} {live : List Key} :
    key ∈ (markRecord run view live prev (listing objects)).keys ↔
      key ∈ (markRecord run view live prev objects.keys).keys := by
  have content : ∀ area ∈ contentAreas, under area.path key = true →
      (key ∈ listing objects ↔ key ∈ objects.keys) := by
    intro area member inside
    have listed : area ∈ areas := by
      simp only [contentAreas, areas, mem_cons] at member ⊢
      grind
    rw [mem_listing]
    exact ⟨fun found => found.1, fun found => ⟨found, area, listed, inside⟩⟩
  have below : ∀ other, under Area.tx.path other = true →
      (other ∈ listing objects ↔ other ∈ objects.keys) := by
    intro other inside
    rw [mem_listing]
    exact ⟨fun found => found.1, fun found => ⟨found, .tx, by decide, inside⟩⟩
  have inTx : isRecord key = true ∨ isMarker key = true → under Area.tx.path key = true := by
    rintro (record | marker)
    · exact under_of_isRecord record
    · exact under_of_isMarker marker
  rw [mem_keys_markRecord, mem_keys_markRecord]
  refine or_congr ?_ (or_congr ?_ ?_)
  · constructor
    · rintro ⟨area, member, found, inside, dead⟩
      exact ⟨area, member, (content area member inside).mp found, inside, dead⟩
    · rintro ⟨area, member, found, inside, dead⟩
      exact ⟨area, member, (content area member inside).mpr found, inside, dead⟩
  · by_cases record : isRecord key = true
    · have inside := inTx (.inl record)
      rw [below key inside, below (markerOf key) (under_markerOf inside)]
    · simp [record]
  · by_cases marker : isMarker key = true
    · have trimmed := under_of_isRecord (isMarker_trimSuffix marker).1
      rw [below key (inTx (.inr marker)), below _ trimmed]
    · simp [marker]

section

variable (calm : Calm allowed)
include calm

theorem mark_alone (marked : runMark run σ.bucket = .ok mark)
    (reached : Reached Move allowed origin (advance s t σ .idle)) :
    ∃ made, Reached Move allowed origin (advance s t σ (.holding made)) ∧
      ∀ key, key ∈ made.keys ↔ key ∈ mark.keys := by
  obtain ⟨valid, prev, read, rfl⟩ := runMark_ok.mp marked
  exact ⟨_, reached_mark calm run valid read reached, fun _ => mem_keys_listing⟩

/-! Sweeping. -/

theorem reached_ready (pending : sw.pending = target :: rest)
    (unchecked : sw.checked = false) (gone : recordIsBack σ.bucket.objects target = false)
    (reached : Reached Move allowed origin (advance s t σ (.sweeping sw))) :
    ∃ checked, (target.category = .orphanMarkers → checked = true) ∧
      Reached Move allowed origin (advance s t σ (.sweeping { sw with checked := checked })) := by
  by_cases marker : target.category = .orphanMarkers
  · exact ⟨true, fun _ => rfl, calm.work reached (.recordGone pending marker unchecked gone)⟩
  · refine ⟨false, fun other => absurd other marker, ?_⟩
    rw [← unchecked]
    exact reached

theorem reached_turn (pending : sw.pending = target :: rest)
    (unchecked : sw.checked = false) (objects : progress.objects = σ.bucket.objects)
    (reached : Reached Move allowed origin (advance s t σ (.sweeping sw))) :
    Reached Move allowed origin (advance s t
      (σ.withObjects (sweepTarget false sw.mark sw.live sw.now progress target).objects)
      (.sweeping (sw.next rest))) := by
  have same : σ.withObjects progress.objects = σ := by rw [objects]; rfl
  unfold sweepTarget
  cases back : recordIsBack progress.objects target with
  | true =>
    rw [objects] at back
    have skipped := calm.work reached (.recordBack pending unchecked back)
    simpa [Progress.skip, same] using skipped
  | false =>
    rw [objects] at back
    obtain ⟨checked, ready, classified⟩ := reached_ready calm pending unchecked back reached
    simp only [Bool.and_false, Bool.false_eq_true, if_false]
    cases decided : decision sw.mark sw.live sw.now target with
    | delete =>
      rw [applyDecision, objects_delete, objects]
      cases found : σ.bucket.objects.lookup target.candidate.key with
      | none =>
        rw [erase_of_notMem (lookup_eq_none.mp found)]
        exact calm.work classified (.headMissing pending ready decided found)
      | some version =>
        have deleted : deleteIfVersionMatches σ.bucket.objects target.candidate.key version =
            .ok (σ.bucket.objects.erase target.candidate.key) := by
          simp [deleteIfVersionMatches, found]
        have headed := calm.work classified (.head pending ready decided found)
        exact headed.again (.delete deleted) (calm _ (.inr ⟨_, rfl⟩))
    | revived | retention | disarmed =>
      have kept : sw.decides target ≠ .delete := by
        rw [Sweeping.decides, decided]
        decide
      rw [applyDecision, Progress.skip, same]
      exact calm.work classified (.skip pending ready kept)

theorem reached_sweep (unchecked : sw.checked = false)
    (objects : progress.objects = σ.bucket.objects)
    (reached : Reached Move allowed origin (advance s t σ (.sweeping sw))) :
    Reached Move allowed origin (advance s t
      (σ.withObjects
        (sw.pending.foldl (sweepTarget false sw.mark sw.live sw.now) progress).objects)
      (.sweeping (sw.next []))) := by
  generalize left : sw.pending = targets
  induction targets generalizing σ sw progress with
  | nil =>
    have same : sw = sw.next [] := by rw [Sweeping.next, ← left, ← unchecked]
    rw [← same, foldl_nil, objects]
    exact reached
  | cons target rest ih =>
    have turned := reached_turn calm left unchecked objects reached
    have finished := @ih _ (sw.next rest) _ rfl rfl turned rfl
    exact finished

theorem sweep_alone {run : SweepRun} (real : run.dryRun = false)
    {report : SweepRecord} (swept : runSweep run mark σ.bucket = .ok (objects, report))
    (reached : Reached Move allowed origin (advance s t σ (.started mark run.startedAt))) :
    ∃ sw, sw.pending = [] ∧
      Reached Move allowed origin (advance s t (σ.withObjects objects) (.sweeping sw)) := by
  obtain ⟨valid, rfl⟩ := runSweep_ok.mp ⟨report, swept⟩
  have entered := calm.work reached (.readLive valid)
  have start : (⟨σ.bucket.objects, [], []⟩ : Progress).objects = σ.bucket.objects := rfl
  have done := reached_sweep calm rfl start entered
  rw [← real] at done
  exact ⟨_, rfl, done⟩

/-! A writer up to its conditional put of the root. -/

end

def World.putAll (σ : World) (keys : List Key) : World := keys.foldl (fun σ key => σ.put key 1) σ

theorem World.putAll_present {σ : World} (present : ∀ key ∈ keys, key ∈ σ.bucket.objects) :
    σ.putAll keys = σ := by
  induction keys with
  | nil => rfl
  | cons first rest ih =>
    have kept : σ.put first 1 = σ := by
      rw [World.put, putIfAbsent, if_pos (present first mem_cons_self)]
    change (σ.put first 1).putAll rest = σ
    rw [kept]
    exact ih fun key member => present key (mem_cons_of_mem _ member)

theorem reached_uploads (calm : Calm allowed) (content : ∀ key ∈ keys, Immutable key)
    (reached : Reached Move allowed origin (advance s t σ .idle)) :
    Reached Move allowed origin (advance s t (σ.putAll keys) .idle) := by
  induction keys generalizing σ with
  | nil => exact reached
  | cons first rest ih =>
    have uploaded := calm.work reached (.upload 1 (content first mem_cons_self))
    exact ih (fun key member => content key (mem_cons_of_mem _ member)) uploaded

theorem reached_written (calm : Calm allowed) (body : Body) {tx : TxID}
    (fresh : txRecordKey tx ∉ σ.bucket.objects)
    (reached : Reached Move allowed origin (advance s t σ .idle)) :
    Reached Move allowed origin
      (advance s t (σ.put (txRecordKey tx) 1) (.written σ.bucket.root body tx)) := by
  have called := calm.work reached .readRoot
  have built := calm.work called (.callback body)
  exact calm.work built (.writeTx 1 fresh)

end BucketVcs.Gc.Collector
