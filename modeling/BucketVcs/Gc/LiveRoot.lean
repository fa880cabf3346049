import BucketVcs.Gc.Collector

/-! What the current root references stays in the store, as long as no commit takes up a
key that a sweep is about to delete. -/

namespace BucketVcs.Gc.Collector

open Manifest Interleave Transition List AList World Gc.Sequential

def References (view : View) (key : Key) : Prop :=
  key ∈ bodyKeys view.body ∨ (view.latestTx ≠ "" ∧ key = txRecordKey view.latestTx)

variable {key : Key} {target : Target} {phase : Phase} {t : ThreadId} {s : System}
  {allowed : Event System (ThreadId × Label) → Prop} {origin : System}

theorem References.live {view : View} (references : References view key) :
    key ∈ liveKeys view view.body := by
  apply mem_cons_of_mem
  rcases references with inBody | ⟨named, rfl⟩
  · exact mem_append_right _ inBody
  · apply mem_append_left
    rw [txKeys, if_neg named]
    exact mem_cons_self

/-- The sweep has decided to delete `key` and has not come to it yet. -/
def Sweeping.Awaits (s : Sweeping) (key : Key) : Prop :=
  ∃ target ∈ s.pending, target.candidate.key = key ∧ s.decides target = .delete

theorem Sweeping.Awaits.of_next {s : Sweeping} {rest : List Target}
    (pending : s.pending = target :: rest) (awaits : (s.next rest).Awaits key) : s.Awaits key := by
  obtain ⟨later, member, same, decided⟩ := awaits
  refine ⟨later, ?_, same, decided⟩
  rw [pending]
  exact mem_cons_of_mem _ member

/-- A thread at this point will delete the object under `key` if left alone. -/
def Doomed (objects : Objects) (key : Key) : Phase → Prop
  | .sweeping s => s.Awaits key
  | .headed s target version =>
    (target.candidate.key = key ∧ objects.lookup key = some version) ∨ s.Awaits key
  | _ => False

theorem Doomed.congr {objects objects' : Objects} (same : objects'.lookup key = objects.lookup key)
    (doomed : Doomed objects' key phase) : Doomed objects key phase := by
  cases phase with
  | headed s target version =>
    rcases doomed with ⟨here, found⟩ | awaits
    · exact .inl ⟨here, same ▸ found⟩
    · exact .inr awaits
  | _ => exact doomed

variable {σ σ' : World} {l : Label}

/-- A step dooms a key only in a sweep that has just read a root in which it is dead. -/
theorem Move.doomed {phase' : Phase} (moved : Move t σ phase l σ' phase')
    (doomed : Doomed σ'.bucket.objects key phase') :
    Doomed σ'.bucket.objects key phase ∨
      key ∉ liveKeys σ.bucket.root σ.bucket.root.body := by
  cases moved with
  | readLive valid =>
    obtain ⟨target, -, rfl, decided⟩ := doomed
    exact .inr (decision_delete decided).1
  | recordBack pending | fails pending | skip pending | headMissing pending =>
    exact .inl (doomed.of_next pending)
  | recordGone => exact .inl doomed
  | head pending ready decided found =>
    left
    rcases doomed with ⟨here, -⟩ | awaits
    · exact ⟨_, pending ▸ mem_cons_self, here, decided⟩
    · exact awaits.of_next pending
  | delete | deleteFails => exact .inl (.inr doomed)
  | _ => exact doomed.elim

/-- The commit takes up no stored key that some sweep is about to delete. -/
def Clear (e : Event System (ThreadId × Label)) : Prop :=
  ∀ next, e.label.2 = .commit next → ∀ key, References next key →
    key ∈ e.pre.shared.bucket.objects →
    ∀ t, ¬ Doomed e.pre.shared.bucket.objects key (e.pre.threads t)

/-- Every key the root referenced when it was committed and that was there is still there,
and no sweep is about to delete it. -/
def Guarded (s : System) : Prop :=
  ∀ key, References s.shared.bucket.root key → key ∈ s.shared.committed →
    key ∈ s.shared.bucket.objects ∧ ∀ t, ¬ Doomed s.shared.bucket.objects key (s.threads t)

theorem guarded_start (root : View) (objects : Objects) : Guarded (start root objects) :=
  fun _ _ present => ⟨present, fun _ doomed => doomed⟩

theorem Guarded.step {s' : System} {l : ThreadId × Label} (guarded : Guarded s)
    (clear : Clear ⟨s, l, s'⟩) (step : Step s l s') : Guarded s' := by
  obtain ⟨t, l⟩ := l
  obtain ⟨moved, others⟩ := step.moved
  intro key references committed
  rcases moved.root with ⟨root, history⟩ | ⟨next, tx, rfl, same, landed⟩
  · rw [root] at references
    rw [history] at committed
    obtain ⟨present, safe⟩ := guarded key references committed
    have found : s'.shared.bucket.objects.lookup key = s.shared.bucket.objects.lookup key := by
      rcases moved.kept present with found | ⟨sweep, target, version, phase, here, found⟩
      · exact found
      · exact absurd (phase ▸ .inl ⟨here, found⟩) (safe t)
    refine ⟨?_, fun other doomed => ?_⟩
    · rw [← lookup_isSome, found, lookup_isSome]
      exact present
    · by_cases mover : other = t
      · subst mover
        rcases moved.doomed doomed with before | dead
        · exact safe other (before.congr found)
        · exact dead references.live
      · rw [others other mover] at doomed
        exact safe other (doomed.congr found)
  · rw [same] at references committed ⊢
    refine ⟨committed, fun other doomed => ?_⟩
    by_cases mover : other = t
    · rw [mover, landed] at doomed
      exact doomed
    · rw [others other mover] at doomed
      exact clear next rfl key references committed other doomed

/-- Collection never breaks the live root in a run whose commits take up no key that a
running sweep is about to delete. -/
theorem live_root_kept {root : View} {objects : Objects} {s : System}
    {events : List (Event System (ThreadId × Label))} (run : Run Step (start root objects) events s)
    (clear : ∀ e ∈ events, Clear e) :
    ∀ key, References s.shared.bucket.root key → key ∈ s.shared.committed →
      key ∈ s.shared.bucket.objects := by
  have guarded : Guarded s := run.invariant (guarded_start root objects)
    (fun _ _ _ guarded permitted step => guarded.step permitted step) clear
  intro key references committed
  exact (guarded key references committed).1

theorem calm_clear : Calm Clear := by
  intro e label next commits
  rw [commits] at label
  rcases label with work | ⟨key, delete⟩
  · cases work
  · cases delete

/-- What a sweep awaits it deletes when it is left alone, whatever the root is by then. -/
theorem awaited_deleted (calm : Calm allowed) {sw : Sweeping}
    (reached : Reached Move allowed origin s) (stands : s.threads t = .sweeping sw)
    (unchecked : sw.checked = false) (member : target ∈ sw.pending)
    (plain : target.category ≠ .orphanMarkers) (decided : sw.decides target = .delete) :
    ∃ s', Reached Move allowed origin s' ∧ s'.shared.bucket.root = s.shared.bucket.root ∧
      s'.shared.committed = s.shared.committed ∧
      target.candidate.key ∉ s'.shared.bucket.objects := by
  have entered : (⟨s.shared.bucket.objects, [], []⟩ : Progress).objects =
    s.shared.bucket.objects := rfl
  have swept := reached_sweep calm unchecked entered (reached.resume stands)
  exact ⟨_, swept, rfl, rfl, absent_foldl member plain decided⟩

/-! A push put its pack and stopped, and a mark listed the pack. An hour later a sweep reads
the root, and then the push is tried again. -/

def createdView : View := ⟨⟨1, 1, Importer.createdBody "refs/heads/main".toUTF8.toList⟩, "01A"⟩

def leftBehind : Objects := objectsOf (bodyKeys importedBody ++ txKeys "01A")

def hourMark : MarkRun := ⟨"mk_01", 0, 1, 3600⟩

def hourRecord : MarkRecord :=
  markRecord hourMark createdView (liveKeys createdView createdView.body) none (listing leftBehind)

def hourSweep (view : View) : Sweeping :=
  ⟨hourRecord, liveKeys view view.body, Sequential.hour + 2, hourRecord.targets, false⟩

def packTarget : Target := ⟨⟨Sequential.orphanPack, 0⟩, .canonicalPacks⟩

theorem packTarget_listed : packTarget ∈ hourRecord.targets := by
  have stored : orphanPack ∈ leftBehind := orphanPack_stored
  have listed : orphanPack ∈ listing leftBehind :=
    mem_listing.mpr ⟨stored, .canonicalPacks, by decide, rfl⟩
  exact pack_target (pack_listed
    (mem_listExcludingLive.mpr ⟨listed, rfl, orphanPack_dead _ _⟩))

def listedWorld : World :=
  ⟨⟨createdView, leftBehind, (∅ : Marks).insert "mk_01" (some hourRecord)⟩, leftBehind⟩

def hourMarked : System :=
  advance (start createdView leftBehind) 0 listedWorld (.holding hourRecord)

theorem reached_hourMarked (calm : Calm allowed) :
    Reached Move allowed (start createdView leftBehind) hourMarked := by
  have idle : Reached Move allowed (start createdView leftBehind)
      (advance (start createdView leftBehind) 0 ⟨⟨createdView, leftBehind, ∅⟩, leftBehind⟩ .idle) :=
    (reached_start _).resume rfl
  have marked := reached_mark calm hourMark rfl rfl idle
  exact calm.work marked (.writeMark (notMem_empty _))

theorem mark_alone_sample : ∃ made, Reached Move (fun _ => True) (start createdView leftBehind)
      (advance (start createdView leftBehind) 0 (start createdView leftBehind).shared (.holding made)) ∧
    ∀ key, key ∈ made.keys ↔ key ∈ hourRecord.keys := by
  have marked : runMark hourMark (start createdView leftBehind).shared.bucket = .ok hourRecord := rfl
  exact mark_alone (fun _ _ => trivial) marked ((reached_start _).resume rfl)

def hourSweepRun : SweepRun := ⟨"sw_01", hour + 2, hour + 3, false⟩

theorem sweep_alone_sample : ∃ swept sw,
    runSweep hourSweepRun hourRecord listedWorld.bucket = .ok swept ∧
      sw.pending = [] ∧ Reached Move (fun _ => True) (start createdView leftBehind)
        (advance hourMarked 0 (listedWorld.withObjects swept.1) (.sweeping sw)) := by
  have calm : Calm fun _ => True := fun _ _ => trivial
  have started := calm.work ((reached_hourMarked calm).resume (t := 0) rfl) (.startSweep (hour + 2))
  have real : hourSweepRun.dryRun = false := rfl
  obtain ⟨sw, done⟩ := sweep_alone calm real rfl started
  exact ⟨_, sw, rfl, done⟩

theorem immutable_importedBody : ∀ key ∈ bodyKeys importedBody, Immutable key := by
  have inside : ∀ key ∈ bodyKeys importedBody,
      (contentAreas.any fun area => under area.path key) = true := by decide
  intro key member
  exact .inl (any_eq_true.mp (inside key member))

variable {tx : TxID}

theorem fresh_leftBehind (later : tx ≠ "01A") : txRecordKey tx ∉ leftBehind := by
  rw [leftBehind, mem_objectsOf]
  intro member
  rcases mem_append.mp member with content | own
  · exact txRecordKey_not_immutable tx (immutable_importedBody _ content)
  · exact txRecordKey_not_mem_txKeys later own

def importedView : View := ⟨⟨2, 2, importedBody⟩, "01B"⟩

def pushedWorld : World := (listedWorld.put (txRecordKey "01B") 1).replaceRoot importedView

theorem orphanPack_referenced : References pushedWorld.bucket.root orphanPack :=
  .inl (mem_of_getElem? (i := 0) rfl)

theorem orphanPack_committed : orphanPack ∈ pushedWorld.committed :=
  mem_putIfAbsent.mpr (.inr orphanPack_stored)

theorem reached_pushAgain (calm : Calm allowed) (idle : s.threads t = .idle)
    (world : s.shared = listedWorld)
    (permitted : ∀ e, e.pre = advance s t (listedWorld.put (txRecordKey "01B") 1)
      (.written createdView importedBody "01B") → allowed e)
    (reached : Reached Move allowed origin s) :
    Reached Move allowed origin (advance s t pushedWorld (.landed "01B")) := by
  have uploaded := reached_uploads calm immutable_importedBody (reached.resume idle)
  have same : listedWorld.putAll (bodyKeys importedBody) = listedWorld :=
    putAll_present fun key member => mem_objectsOf.mpr (mem_append_left _ member)
  rw [world, same] at uploaded
  have fresh : txRecordKey "01B" ∉ leftBehind := fresh_leftBehind (by decide)
  have written := reached_written calm importedBody fresh uploaded
  exact written.again (.casTaken 2 rfl) (permitted _ rfl)

theorem live_root_kept_sample :
    ∃ events s, Run Step (start createdView leftBehind) events s ∧ (∀ e ∈ events, Clear e) ∧
      References s.shared.bucket.root Sequential.orphanPack ∧
      Sequential.orphanPack ∈ s.shared.committed ∧
      Sequential.orphanPack ∈ s.shared.bucket.objects ∧
      s.threads 0 = .sweeping (hourSweep importedView) := by
  have permitted : ∀ e : Event System (ThreadId × Label), e.pre = advance hourMarked 1
      (listedWorld.put (txRecordKey "01B") 1) (.written createdView importedBody "01B") →
      Clear e := by
    intro e before next _ key _ _ t doomed
    rw [before] at doomed
    by_cases pushing : t = 1
    · rw [pushing, advance_self] at doomed
      exact doomed
    · rw [advance_of_ne _ pushing] at doomed
      by_cases marking : t = 0
      · rw [marking, hourMarked, advance_self] at doomed
        exact doomed
      · rw [hourMarked, advance_of_ne _ marking] at doomed
        exact doomed
  have pushed := reached_pushAgain (t := 1) calm_clear rfl rfl permitted
    (reached_hourMarked calm_clear)
  have started := calm_clear.work (pushed.resume (t := 0) rfl) (.startSweep (hour + 2))
  have sweeps := calm_clear.work started (.readLive rfl)
  obtain ⟨events, run, clear⟩ := sweeps
  exact ⟨events, _, run, clear, orphanPack_referenced, orphanPack_committed,
    live_root_kept run clear _ orphanPack_referenced orphanPack_committed, rfl⟩

/-- The sweep read the root before the push committed, and deletes the pack after. -/
theorem revived_pack_deleted :
    ∃ events s, Run Step (start createdView leftBehind) events s ∧
      References s.shared.bucket.root Sequential.orphanPack ∧
      Sequential.orphanPack ∈ s.shared.committed ∧
      Sequential.orphanPack ∉ s.shared.bucket.objects := by
  have calm : Calm fun _ => True := fun _ _ => trivial
  have started := calm.work ((reached_hourMarked calm).resume (t := 0) rfl)
    (.startSweep (hour + 2))
  have sweeps := calm.work started (.readLive rfl)
  have pushed := reached_pushAgain (t := 1) calm rfl rfl (fun _ _ => trivial) sweeps
  have stands : (advance (advance hourMarked 0 listedWorld (.sweeping (hourSweep createdView))) 1
      pushedWorld (.landed "01B")).threads 0 = .sweeping (hourSweep createdView) := rfl
  have decided : (hourSweep createdView).decides packTarget = .delete :=
    decision_of_dead (orphanPack_dead _ _) (by decide) (by decide)
  obtain ⟨s, ⟨events, run, -⟩, root, committed, gone⟩ :=
    awaited_deleted calm pushed stands rfl packTarget_listed (by decide) decided
  refine ⟨events, s, run, ?_, ?_, gone⟩
  · rw [root]
    exact orphanPack_referenced
  · rw [committed]
    exact orphanPack_committed

/-! A transaction record is deleted for want of a commit marker. The marker is looked for
when the mark is made, and not again when the record is deleted. -/

/-- Some thread has taken `record` for an orphan: a listing that has passed its marker
without finding it, a mark that lists it, or a sweep that is to delete it. -/
def Condemns (record : Key) : Phase → Prop
  | .marking m =>
    record ∈ m.listed ∧ record ∉ m.live ∧ markerOf record ∉ m.listed ∧
      ¬ m.tour.Ahead inArea listedBefore (markerOf record)
  | .holding mark => record ∈ mark.keys
  | .started mark _ => record ∈ mark.keys
  | .sweeping s => s.Awaits record
  | .headed s target _ => target.candidate.key = record ∨ s.Awaits record
  | _ => False

def Listed (marks : Marks) (key : Key) : Prop :=
  ∃ id mark, marks.lookup id = some (some mark) ∧ key ∈ mark.keys

def Condemned (s : System) (record : Key) : Prop :=
  Listed s.shared.bucket.marks record ∨ ∃ t, Condemns record (s.threads t)

/-! The store lists a record before its marker. -/

theorem listedBefore_markerOf (record : Key) : listedBefore record (markerOf record) := by
  have longer : List.Lex (fun x y : Char => x.toNat < y.toNat) [] ".commit".toList := .nil
  have appended := List.Lex.append_left _ longer record.toList
  rw [append_nil] at appended
  rw [listedBefore, markerOf, String.toList_append]
  exact appended

theorem listedBefore_trans {a b c : Key} (first : listedBefore a b) (second : listedBefore b c) :
    listedBefore a c :=
  lex_trans (fun low high => lt_trans low high) first second

variable {record : Key} {tour : Paging.Tour Area Key}

theorem ahead_markerOf (ahead : tour.Ahead inArea listedBefore record) :
    tour.Ahead inArea listedBefore (markerOf record) := by
  have inside : ∀ area, inArea area record → inArea area (markerOf record) := by
    intro area inside
    exact under_markerOf inside
  exact .extend @listedBefore_trans ahead (listedBefore_markerOf record) inside

/-! What a step can do to a record's chances. -/

theorem condemns_page {m : Marking} {objects : Objects} {page : List Key}
    (turned : Paging.Page inArea listedBefore (fun key => key ∈ objects) m.tour page tour)
    (condemns : Condemns record (.marking { m with tour := tour, listed := m.listed ++ page })) :
    Condemns record (.marking m) ∨ markerOf record ∉ objects := by
  obtain ⟨listed, dead, unmarked, passed⟩ := condemns
  rw [mem_append, not_or] at unmarked
  -- a marker that is there while the listing passes it is listed
  have missed : m.tour.Ahead inArea listedBefore (markerOf record) →
      markerOf record ∉ objects := by
    intro ahead present
    rcases turned.passes present ahead with found | later
    · exact unmarked.2 found
    · exact passed later
  rcases mem_append.mp listed with before | now
  · by_cases ahead : m.tour.Ahead inArea listedBefore (markerOf record)
    · exact .inr (missed ahead)
    · exact .inl ⟨before, dead, unmarked.1, ahead⟩
  · exact .inr (missed (ahead_markerOf (turned.ahead_of_mem now).2))

theorem condemns_marked {m : Marking} (listed : m.tour.pending = [])
    (isTx : isRecord record = true) (member : record ∈ m.record.keys) :
    Condemns record (.marking m) := by
  have outside := under_of_isRecord isTx
  rw [Marking.record, mem_keys_markRecord] at member
  rcases member with ⟨area, content, -, inside, -⟩ | ⟨seen, -, dead, unmarked⟩ | ⟨-, marker, -⟩
  · rw [(content_apart content inside).2] at outside
    cases outside
  · refine ⟨seen, dead, unmarked, ?_⟩
    intro ahead
    unfold Paging.Tour.Ahead at ahead
    rw [listed] at ahead
    exact ahead
  · rw [← (isMarker_trimSuffix marker).2, isRecord_markerOf] at isTx
    cases isTx

variable {key : Key}

theorem awaits_listed {s : Sweeping} {mark : MarkRecord}
    (pending : s.pending = mark.targets) (awaits : s.Awaits key) : key ∈ mark.keys := by
  obtain ⟨target, member, same, -⟩ := awaits
  rw [pending] at member
  exact mem_map.mpr ⟨target, member, same⟩

variable {t : ThreadId} {phase phase' : Phase}

theorem Move.condemns (moved : Move t σ phase l σ' phase') (isTx : isRecord record = true)
    (condemns : Condemns record phase') :
    Condemns record phase ∨ Listed σ.bucket.marks record ∨
      (l = .work ∧ markerOf record ∉ σ.bucket.objects) := by
  cases moved with
  | noMark | readMark | markGone => exact absurd condemns.1 not_mem_nil
  | page turned =>
    rcases condemns_page turned condemns with before | absent
    · exact .inl before
    · exact .inr (.inr ⟨rfl, absent⟩)
  | marked listed => exact .inl (condemns_marked listed isTx condemns)
  | writeMark | startSweep | recordGone => exact .inl condemns
  | @load id mark found => exact .inr (.inl ⟨id, mark, found, condemns⟩)
  | readLive valid => exact .inl (awaits_listed rfl condemns)
  | recordBack pending | fails pending | skip pending | headMissing pending =>
    exact .inl (condemns.of_next pending)
  | head pending ready decided found =>
    left
    rcases condemns with here | awaits
    · exact ⟨_, pending ▸ mem_cons_self, here, decided⟩
    · exact awaits.of_next pending
  | delete | deleteFails => exact .inl (.inr condemns)
  | _ => exact condemns.elim

theorem Move.deletes (moved : Move t σ phase (.delete key) σ' phase') : Condemns key phase := by
  cases moved with
  | delete => exact .inl rfl

theorem Move.listed (moved : Move t σ phase l σ' phase') (listed : Listed σ'.bucket.marks key) :
    Listed σ.bucket.marks key ∨ Condemns key phase := by
  cases moved with
  | @writeMark mark unused =>
    obtain ⟨id, stored, found, member⟩ := listed
    by_cases same : id = mark.markID
    · rw [same, withMarks, lookup_insert] at found
      cases found
      exact .inr member
    · rw [withMarks, lookup_insert_ne same] at found
      exact .inl ⟨id, stored, found, member⟩
  | @prune old gone =>
    obtain ⟨id, stored, found, member⟩ := listed
    by_cases same : id = old
    · rw [same, withMarks, lookup_erase] at found
      cases found
    · rw [withMarks, lookup_erase_ne same] at found
      exact .inl ⟨id, stored, found, member⟩
  | _ => exact .inl listed

variable {s s' : System}

theorem Condemned.before (step : Step s (t, l) s') (isTx : isRecord record = true)
    (condemned : Condemned s' record) :
    Condemned s record ∨ (l = .work ∧ markerOf record ∉ s.shared.bucket.objects) := by
  obtain ⟨moved, others⟩ := step.moved
  rcases condemned with listed | ⟨other, condemns⟩
  · left
    rcases moved.listed listed with stored | held
    · exact .inl stored
    · exact .inr ⟨t, held⟩
  · by_cases mover : other = t
    · subst mover
      rcases moved.condemns isTx condemns with before | stored | absent
      · exact .inl (.inr ⟨other, before⟩)
      · exact .inl (.inl stored)
      · exact .inr absent
    · rw [others other mover] at condemns
      exact .inl (.inr ⟨other, condemns⟩)

theorem Move.marker_added (moved : Move t σ phase l σ' phase') (isTx : isRecord record = true)
    (member : markerOf record ∈ σ'.bucket.objects) :
    markerOf record ∈ σ.bucket.objects ∨ ∃ tx, l = .marker tx ∧ record = txRecordKey tx := by
  have inside := under_markerOf (under_of_isRecord isTx)
  rcases moved.added member with old | content | ⟨tx, same⟩ | ⟨tx, put, same⟩
  · exact .inl old
  · rcases content with ⟨area, listed, within⟩ | shard
    · rw [(content_apart listed within).2] at inside
      cases inside
    · have outside : under Area.tx.path (markerOf record) = false := under_apart shard (by decide)
      rw [outside] at inside
      cases inside
  · have recorded := isRecord_txRecordKey tx
    rw [← same, isRecord_markerOf] at recorded
    cases recorded
  · refine .inr ⟨tx, put, ?_⟩
    rw [← trimSuffix_markerOf record, same, commitMarkerKey, trimSuffix_markerOf]

/-- The marker of a commit is written only while nobody takes its record for an orphan. -/
def MarkerInTime (e : Event System (ThreadId × Label)) : Prop :=
  ∀ tx, e.label.2 = .marker tx → ¬ Condemned e.pre (txRecordKey tx)

def Orphaned (s : System) : Prop :=
  ∀ record, isRecord record = true → Condemned s record →
    markerOf record ∉ s.shared.bucket.objects

theorem orphaned_start (root : View) (objects : Objects) : Orphaned (start root objects) := by
  intro record _ condemned
  rcases condemned with ⟨id, mark, found, -⟩ | ⟨t, condemns⟩
  · cases found
  · exact condemns.elim

theorem Orphaned.step {l : ThreadId × Label} (orphaned : Orphaned s)
    (inTime : MarkerInTime ⟨s, l, s'⟩) (step : Step s l s') : Orphaned s' := by
  intro record isTx condemned present
  have earlier := condemned.before step isTx
  rcases step.moved.1.marker_added isTx present with old | ⟨tx, put, rfl⟩
  · rcases earlier with before | ⟨-, absent⟩
    · exact orphaned record isTx before old
    · exact absent old
  · rcases earlier with before | ⟨work, -⟩
    · exact inTime tx put before
    · rw [work] at put
      cases put

/-- A sweep deletes no record whose marker is stored. -/
def SparesWinners (e : Event System (ThreadId × Label)) : Prop :=
  ∀ key, e.label.2 = .delete key → isRecord key = true →
    markerOf key ∉ e.pre.shared.bucket.objects

theorem Orphaned.delete {l : ThreadId × Label} (orphaned : Orphaned s)
    (step : Step s l s') : SparesWinners ⟨s, l, s'⟩ := by
  obtain ⟨t, l⟩ := l
  rintro key rfl isTx
  apply orphaned key isTx
  exact .inr ⟨t, step.moved.1.deletes⟩

/-- Winning records are spared in every run in which no marker is written for a record
that has been taken for an orphan. -/
theorem winning_record_kept {root : View} {objects : Objects} {s : System}
    {events : List (Event System (ThreadId × Label))} (run : Run Step (start root objects) events s)
    (inTime : ∀ e ∈ events, MarkerInTime e) : ∀ e ∈ events, SparesWinners e :=
  run.every_event (I := Orphaned) (orphaned_start root objects)
    (fun _ _ _ orphaned permitted step => orphaned.step permitted step)
    (fun _ _ _ orphaned _ step => orphaned.delete step) inTime

/-! A commit that is slow between its transaction record and its conditional put is met by
a mark; after it has landed, another commit follows, and then the mark is swept. -/

def World.land (σ : World) (body : Body) (tx : TxID) : World :=
  (σ.replaceRoot ⟨⟨σ.bucket.root.manifestVersion + 1, σ.bucket.root.version + 1, body⟩, tx⟩).put
    (commitMarkerKey tx) 1

variable {allowed : Event System (ThreadId × Label) → Prop} {σ : World}

theorem reached_landed {origin s : System} {body : Body}
    (commits : ∀ e next, e.label.2 = .commit next → allowed e)
    (marks : ∀ e, e.pre.threads = (advance s t σ (.landed tx)).threads →
      e.pre.shared.bucket.marks = σ.bucket.marks → e.label.2 = .marker tx → allowed e)
    (reached : Reached Move allowed origin (advance s t σ (.written σ.bucket.root body tx))) :
    Reached Move allowed origin (advance s t (σ.land body tx) .idle) := by
  have landed := reached.again (.casTaken (σ.bucket.root.version + 1) rfl) (commits _ _ rfl)
  exact landed.again (.marker 1) (marks _ rfl rfl rfl)

theorem reached_commit (calm : Calm allowed) {origin s : System} (body : Body)
    (commits : ∀ e next, e.label.2 = .commit next → allowed e)
    (marks : ∀ e, e.pre.threads = (advance s t σ (.landed tx)).threads →
      e.pre.shared.bucket.marks = σ.bucket.marks → e.label.2 = .marker tx → allowed e)
    (fresh : txRecordKey tx ∉ σ.bucket.objects)
    (reached : Reached Move allowed origin (advance s t σ .idle)) :
    Reached Move allowed origin
      (advance s t ((σ.put (txRecordKey tx) 1).land body tx) .idle) := by
  have written := reached_written calm body fresh reached
  exact reached_landed (σ := σ.put (txRecordKey tx) 1) commits marks written

def slowWorld : World :=
  (start createdView leftBehind).shared.put (txRecordKey "01B") 1

def slowRecord : MarkRecord :=
  markRecord hourMark createdView (liveKeys createdView createdView.body) none
    (listing slowWorld.bucket.objects)

def slowMarked : World :=
  slowWorld.withMarks ((∅ : Marks).insert "mk_01" (some slowRecord))

def slowTarget : Target := ⟨⟨txRecordKey "01B", 0⟩, .txRecords⟩

def slow : System :=
  advance (advance (start createdView leftBehind) 1 slowWorld
    (.written createdView importedBody "01B")) 0 slowMarked .idle

theorem fresh_slowWorld : txRecordKey "01C" ∉ slowWorld.bucket.objects := by
  intro present
  rcases mem_putIfAbsent.mp present with same | older
  · exact absurd (txRecordKey_injective same) (by decide)
  · exact fresh_leftBehind (by decide) older

theorem lookup_slowRecord (later : List Key) :
    (later.foldl (fun objects key => putIfAbsent objects key 1) slowWorld.bucket.objects).lookup
      slowTarget.candidate.key = some 1 := by
  have kept : ∀ objects : Objects, slowTarget.candidate.key ∈ objects →
      (later.foldl (fun objects key => putIfAbsent objects key 1) objects).lookup
        slowTarget.candidate.key = objects.lookup slowTarget.candidate.key := by
    induction later with
    | nil => exact fun _ _ => rfl
    | cons key rest ih =>
      intro objects there
      rw [foldl_cons, ih _ (mem_putIfAbsent.mpr (.inr there)), lookup_putIfAbsent there]
  have there : slowTarget.candidate.key ∈ slowWorld.bucket.objects :=
    mem_putIfAbsent.mpr (.inl rfl)
  rw [kept _ there]
  exact lookup_putIfAbsent_new (fresh_leftBehind (by decide)) 1

theorem reached_slow (calm : Calm allowed) :
    Reached Move allowed (start createdView leftBehind) slow := by
  have idle : Reached Move allowed (start createdView leftBehind)
      (advance (start createdView leftBehind) 1 ⟨⟨createdView, leftBehind, ∅⟩, leftBehind⟩ .idle) :=
    (reached_start _).resume rfl
  have fresh : txRecordKey "01B" ∉ leftBehind := fresh_leftBehind (by decide)
  have written := reached_written calm importedBody fresh idle
  have marked := reached_mark (t := 0) calm hourMark rfl rfl (written.resume rfl)
  have stored := calm.work marked (.writeMark (notMem_empty _))
  exact calm.work stored .abandon

theorem slowTarget_first : slowRecord.targets.head? = some slowTarget := by decide

theorem slowRecord_armed : slowRecord.txOrphanSweepArmed = true := by
  have stored : commitMarkerKey "01A" ∈ slowWorld.bucket.objects :=
    mem_putIfAbsent.mpr (.inr (mem_objectsOf.mpr (mem_append_right _
      (mem_cons_of_mem _ mem_cons_self))))
  have marker : isMarker (commitMarkerKey "01A") = true := isMarker_markerOf (isRecord_txRecordKey _)
  have listed : commitMarkerKey "01A" ∈ (listing slowWorld.bucket.objects).filter isMarker :=
    mem_filter.mpr ⟨mem_listing.mpr ⟨stored, .tx, by decide, under_of_isMarker marker⟩, marker⟩
  have armed : (discoverTxRecords (listing slowWorld.bucket.objects)
      (liveKeys createdView createdView.body)).armed = true := by
    rw [discoverTxRecords, Bool.not_eq_true', isEmpty_eq_false_iff_exists_mem]
    exact ⟨_, listed⟩
  rw [slowRecord, markRecord, armed]
  rfl

theorem slowRecord_decides {live : List Key} (dead : slowTarget.candidate.key ∉ live) :
    decision slowRecord live (hour + 2) slowTarget = .delete :=
  decision_of_dead dead (by decide) fun _ => slowRecord_armed

theorem sweeps_slow (calm : Calm allowed)
    {origin s : System} {version : Nat} (idle : s.threads 0 = .idle)
    (marks : s.shared.bucket.marks = slowMarked.bucket.marks)
    (valid : validateBody s.shared.bucket.root.body = .ok ())
    (dead : slowTarget.candidate.key ∉ liveKeys s.shared.bucket.root s.shared.bucket.root.body)
    (found : s.shared.bucket.objects.lookup slowTarget.candidate.key = some version)
    (reached : Reached Move allowed origin s) :
    ∃ events s', Run Step origin events s' ∧ (∀ e ∈ events, allowed e) ∧
      ∃ e ∈ events, e.label.2 = .delete (txRecordKey "01B") ∧ e.pre.shared = s.shared := by
  have newest : (listMarks s.shared.bucket.marks).head? = some "mk_01" := by rw [marks]; rfl
  have stored : s.shared.bucket.marks.lookup "mk_01" = some (some slowRecord) := by
    rw [marks]
    exact lookup_insert _
  have deleted : deleteIfVersionMatches s.shared.bucket.objects slowTarget.candidate.key version =
      .ok (s.shared.bucket.objects.erase slowTarget.candidate.key) := by
    simp [deleteIfVersionMatches, found]
  obtain ⟨rest, targets⟩ := head?_eq_some_iff.mp slowTarget_first
  have loading := calm.work (reached.resume idle) (.pickLatest newest)
  have holding := calm.work loading (.load stored)
  have started := calm.work holding (.startSweep (hour + 2))
  have sweeps := calm.work started (.readLive valid)
  have headed := calm.work sweeps
    (.head targets (fun other => absurd other (by decide)) (slowRecord_decides dead) found)
  obtain ⟨events, run, admitted⟩ := headed
  have swept := extend run 0 (advance_self ..) (.delete deleted)
  refine ⟨_, _, swept, ?_, _, mem_cons_self, rfl, rfl⟩
  intro e member
  rcases mem_cons.mp member with rfl | earlier
  · exact calm _ (.inr ⟨_, rfl⟩)
  · exact admitted e earlier

theorem slowRecord_spares : txRecordKey "01C" ∉ slowRecord.keys := by
  have unlisted : txRecordKey "01C" ∉ listing slowWorld.bucket.objects :=
    fun listed => fresh_slowWorld (mem_listing.mp listed).1
  rw [slowRecord, mem_keys_markRecord]
  rintro (⟨-, -, listed, -⟩ | ⟨listed, -⟩ | ⟨listed, -⟩) <;> exact unlisted listed

theorem not_condemned_slow {s : System}
    (threads : s.threads = (advance slow t σ (.landed tx)).threads)
    (marks : s.shared.bucket.marks = slowMarked.bucket.marks) :
    ¬ Condemned s (txRecordKey "01C") := by
  rintro (⟨id, mark, found, member⟩ | ⟨other, condemns⟩)
  · rw [marks] at found
    by_cases same : id = "mk_01"
    · rw [same] at found
      cases found
      exact slowRecord_spares member
    · have none : slowMarked.bucket.marks.lookup id = none := by
        rw [slowMarked, withMarks, lookup_insert_ne same]
        rfl
      rw [none] at found
      cases found
  · rw [threads] at condemns
    by_cases lands : other = t
    · rw [lands, advance_self] at condemns
      exact condemns
    · rw [advance_of_ne _ lands] at condemns
      by_cases marker : other = 0
      · rw [marker] at condemns
        exact condemns
      · rw [slow, advance_of_ne _ marker] at condemns
        by_cases writer : other = 1
        · rw [writer] at condemns
          exact condemns
        · rw [advance_of_ne _ writer] at condemns
          exact condemns

def overtaken : World := (slowMarked.put (txRecordKey "01C") 1).land importedBody "01C"

theorem winning_record_kept_sample :
    ∃ events s, Run Step (start createdView leftBehind) events s ∧
      (∀ e ∈ events, MarkerInTime e) ∧ (∀ e ∈ events, SparesWinners e) ∧
      ∃ e ∈ events, e.label.2 = .delete (txRecordKey "01B") := by
  have calm : Calm MarkerInTime := by
    intro e label tx marks
    rw [marks] at label
    rcases label with work | ⟨key, delete⟩
    · cases work
    · cases delete
  have commits : ∀ (e : Event System (ThreadId × Label)) next, e.label.2 = .commit next →
      MarkerInTime e := by
    intro e next commit tx marks
    rw [commit] at marks
    cases marks
  have idle : Reached Move MarkerInTime (start createdView leftBehind)
      (advance slow 2 slowMarked .idle) := (reached_slow calm).resume rfl
  have marks : ∀ e : Event System (ThreadId × Label),
      e.pre.threads = (advance slow 2 slowMarked (.landed "01C")).threads →
      e.pre.shared.bucket.marks = slowMarked.bucket.marks → e.label.2 = .marker "01C" →
      MarkerInTime e := by
    intro e threads marks label tx same
    rw [label] at same
    cases same
    exact not_condemned_slow threads marks
  have landed := reached_commit calm importedBody commits marks fresh_slowWorld idle
  have found : overtaken.bucket.objects.lookup slowTarget.candidate.key = some 1 :=
    lookup_slowRecord [txRecordKey "01C", commitMarkerKey "01C"]
  have dead : slowTarget.candidate.key ∉
      liveKeys overtaken.bucket.root overtaken.bucket.root.body :=
    txRecordKey_dead (by decide) immutable_importedBody
  obtain ⟨events, s, run, inTime, e, member, label, -⟩ :=
    @sweeps_slow _ calm _ (advance slow 2 overtaken .idle) _ rfl rfl rfl dead found landed
  exact ⟨events, s, run, inTime, winning_record_kept run inTime, e, member, label⟩

def slowLanded : World :=
  ((slowMarked.land importedBody "01B").put (txRecordKey "01C") 1).land importedBody "01C"

theorem slow_marker_landed : commitMarkerKey "01B" ∈ slowLanded.bucket.objects := by
  refine mem_putIfAbsent.mpr (.inr (mem_putIfAbsent.mpr (.inr ?_)))
  exact mem_putIfAbsent.mpr (.inl rfl)

theorem slow_record_found : slowLanded.bucket.objects.lookup slowTarget.candidate.key = some 1 :=
  lookup_slowRecord [commitMarkerKey "01B", txRecordKey "01C", commitMarkerKey "01C"]

/-- The record of the slow commit is deleted with its marker beside it. -/
theorem slow_commit_swept :
    ∃ events s, Run Step (start createdView leftBehind) events s ∧
      ∃ e ∈ events, e.label.2 = .delete (txRecordKey "01B") ∧
        commitMarkerKey "01B" ∈ e.pre.shared.bucket.objects := by
  have calm : Calm fun _ => True := fun _ _ => trivial
  have waiting : Reached Move (fun _ => True) (start createdView leftBehind) (advance slow 1
      slowMarked (.written slowMarked.bucket.root importedBody "01B")) :=
    (reached_slow calm).resume rfl
  have first := reached_landed (fun _ _ _ => trivial) (fun _ _ _ _ => trivial) waiting
  have fresh : txRecordKey "01C" ∉ (slowMarked.land importedBody "01B").bucket.objects := by
    intro present
    rcases mem_putIfAbsent.mp present with marker | older
    · have record := isRecord_txRecordKey "01C"
      rw [marker, commitMarkerKey, isRecord_markerOf] at record
      cases record
    · exact fresh_slowWorld older
  have second := reached_commit calm importedBody (fun _ _ _ => trivial) (fun _ _ _ _ => trivial)
    fresh first
  have dead : slowTarget.candidate.key ∉
      liveKeys slowLanded.bucket.root slowLanded.bucket.root.body :=
    txRecordKey_dead (by decide) immutable_importedBody
  obtain ⟨events, s, run, -, e, member, label, shared⟩ :=
    @sweeps_slow _ calm _ (advance slow 1 slowLanded .idle) _ rfl rfl rfl dead
      slow_record_found second
  refine ⟨events, s, run, e, member, label, ?_⟩
  rw [shared]
  exact slow_marker_landed

end BucketVcs.Gc.Collector
