import BucketVcs.Mirror
import BucketVcs.Writers.Serving

/-! The gateway refines the writers' machine, and what every fetch knows about the bare. -/

namespace BucketVcs.Mirror

open Manifest RefStore Importer ReceivePack Exporter UploadPack Writers Transition List Function

variable {git : Git} {h : Hashing} {exporter : Exporter.Tools git} {uploader : UploadPack.Tools git}
  {t : ThreadId} {g g' : Gateway git} {seat seat' : Seat git} {l : Label} {s s' : System git}

/-! The bucket's side of a gateway run is a run of the writers. -/

def Seat.phase : Seat git → Phase git
  | .outside phase => phase
  | .pushing _ phase _ => phase
  | _ => .idle

def bucketView (s : System git) : Writers.System git :=
  ⟨s.shared.world, fun t => (s.threads t).phase⟩

theorem Move.seen (moved : Move h exporter uploader t g seat l g' seat') :
    (g'.world = g.world ∧ seat'.phase = seat.phase) ∨
      ∃ l', Writers.Move h t g.world seat.phase l' g'.world seat'.phase := by
  cases moved with
  | outside moved | pushWork moved own => exact .inr ⟨_, moved⟩
  | applyFails => exact .inr ⟨_, .mirrorFails⟩
  | _ => exact .inl ⟨rfl, rfl⟩

theorem phase_update (threads : ThreadId → Seat git) (t : ThreadId) (seat : Seat git) :
    (fun other => (update threads t seat other).phase) =
      update (fun other => (threads other).phase) t seat.phase :=
  comp_update Seat.phase threads t seat

theorem Step.seen (step : Step h exporter uploader s (t, l) s') :
    bucketView s' = bucketView s ∨
      ∃ l', Writers.Step h (bucketView s) l' (bucketView s') := by
  cases step with
  | by_thread moved =>
    rcases moved.seen with ⟨world, phase⟩ | ⟨l', stepped⟩
    · left
      simp only [bucketView, phase_update, phase, world]
      rw [update_eq_self]
    · right
      refine ⟨(t, l'), ?_⟩
      simp only [bucketView, phase_update]
      exact .by_thread stepped

variable {defaultBranch : RefName}

theorem Step.links (step : Step h exporter uploader s (t, l) s') :
    ∃ newer, s'.shared.world.links = newer ++ s.shared.world.links := by
  rcases step.moved.1.seen with ⟨world, -⟩ | ⟨l', moved⟩
  · exact ⟨[], by rw [world]; rfl⟩
  · exact moved.links

/-! The invariant. -/

/-- The moment lies on the chain of replacements. -/
structure Began (σ : World git) (moment : Moment git) : Prop where
  chained : Chain.Chained Link.prev Link.next σ.origin moment.links moment.root
  older : ∃ newer, σ.links = newer ++ moment.links

def Committed (h : Hashing) (σ : World git) (began : Moment git) (name : RefName) (oid : OID) : Prop :=
  ∃ root, Between began (World.now σ) root ∧ value h σ root name = some oid

/-- A fetch between its `Open` and its answer. No lock holder has committed anything
before the fetch began, and the bare has committed refs and those a push is writing. -/
structure Parked (h : Hashing) (g : Gateway git) (dirty : RefName → OID → Prop) (f : Fetch git) :
    Prop where
  began : Began g.world f.began
  unheard : ∀ t, g.writer = some t → ∀ link ∈ f.began.links, link.thread ≠ t
  refs : ∀ name oid, g.bare.refs.lookup name = some oid →
    dirty name oid ∨ Committed h g.world f.began name oid

def Goal.Began (σ : World git) : Goal git → Prop
  | .fetch f => Mirror.Began σ f.began
  | .push => True

def Goal.Saw (view : Root) : Goal git → Prop
  | .fetch f => f.began.root.manifestVersion ≤ view.manifestVersion
  | .push => True

def At (h : Hashing) (g : Gateway git) (dirty : RefName → OID → Prop) (t : ThreadId) :
    Seat git → Prop
  | .opening goal => goal.Began g.world
  | .viewed goal view => goal.Began g.world ∧ view ∈ g.world.history ∧ goal.Saw view
  | .locked goal => g.writer = some t ∧ goal.Began g.world
  | .syncing goal view => g.writer = some t ∧ goal.Began g.world ∧ view ∈ g.world.history ∧
      goal.Saw view
  | .opened (.fetch f) => Parked h g dirty f
  | .serving f => t ∈ g.readers ∧ Parked h g dirty f
  | .pushing touched phase todo => g.writer = some t ∧ 
      (touched = true → ∃ p, requestOf phase = some p ∧ phase ≠ .checked p) ∧
      ∀ p, phase = .accepted p → ∀ u ∈ todo, u ∈ accepted p.statuses
  | _ => True

def Seat.writes : Seat git → Option (Push git)
  | .pushing true phase _ => requestOf phase
  | _ => none

def Dirty (s : System git) (name : RefName) (oid : OID) : Prop :=
  ∃ t p, (s.threads t).writes = some p ∧ (name, oid) ∈ refUpdates (accepted p.statuses) ∧
    deletes oid = false

def Vouched (h : Hashing) (g : Gateway git) (dirty : RefName → OID → Prop) : Prop :=
  ∀ version tx, g.sentinel = some (version, tx) → ∀ name oid,
    g.bare.refs.lookup name = some oid → dirty name oid ∨
      ∃ root ∈ g.world.history, version ≤ root.manifestVersion ∧ value h g.world root name = some oid

structure Inv (h : Hashing) (s : System git) : Prop where
  apart : s.shared.writer ≠ none → s.shared.readers = ∅
  vouched : Vouched h s.shared (Dirty s)
  seats : ∀ t, At h s.shared (Dirty s) t (s.threads t)

/-! Growth of the bucket. -/

variable {σ σ' : World git} {root : Root} {name : RefName} {oid : OID} {began moment : Moment git}
  {dirty : RefName → OID → Prop} {p : Push git} {dirty' : RefName → OID → Prop} {f : Fetch git}
  {goal : Goal git} {response : Response}

theorem value_iff : value h σ root name = some oid ↔
    ∃ refs, list h σ.objects root.body = .ok refs ∧ refs.lookup name = some oid := by
  unfold value
  cases list h σ.objects root.body <;> simp

theorem value_grows (global : Global h σ) (grows : Grows σ σ') (member : root ∈ σ.history)
    (found : value h σ root name = some oid) : value h σ' root name = some oid := by
  obtain ⟨refs, listed, held⟩ := value_iff.mp found
  exact value_iff.mpr
    ⟨refs, list_grows grows.objects (global.sound member).resolves listed, held⟩

theorem Between.later {ended ended' : Moment git} (between : Between began ended root)
    (grown : ∃ newer, ended'.links = newer ++ ended.links) : Between began ended' root := by
  obtain ⟨middle, extends_, which⟩ := between
  obtain ⟨newer, extended⟩ := grown
  refine ⟨newer ++ middle, by rw [extended, extends_, append_assoc], ?_⟩
  rcases which with same | ⟨link, inside, same⟩
  · exact .inl same
  · exact .inr ⟨link, mem_append_right _ inside, same⟩

theorem Began.grows (began : Began σ moment) (grows : Grows σ σ') : Began σ' moment := by
  obtain ⟨older, same⟩ := began.older
  obtain ⟨newer, extended⟩ := grows.links
  refine ⟨grows.origin ▸ began.chained, newer ++ older, ?_⟩
  rw [extended, same, append_assoc]

theorem Began.root_mem (began : Began σ moment) : moment.root ∈ σ.history := by
  obtain ⟨newer, same⟩ := began.older
  rcases Chain.mem_values.mp began.chained.current_mem with initial | ⟨link, inside, next⟩
  · exact Chain.mem_values.mpr (.inl initial)
  · exact Chain.mem_values.mpr (.inr ⟨link, by rw [same]; exact mem_append_right _ inside, next⟩)

theorem Between.mem_history (began : Began σ moment) (between : Between moment (World.now σ) root) :
    root ∈ σ.history := by
  obtain ⟨newer, extended, which⟩ := between
  rcases which with rfl | ⟨link, inside, same⟩
  · exact began.root_mem
  · refine Chain.mem_values.mpr (.inr ⟨link, ?_, same⟩)
    have links : σ.links = newer ++ moment.links := extended
    rw [links]
    exact mem_append_left _ inside

theorem Began.between (global : Global h σ) (began : Began σ moment) (member : root ∈ σ.history)
    (late : moment.root.manifestVersion ≤ root.manifestVersion) :
    Between moment (World.now σ) root := by
  obtain ⟨newer, same⟩ := began.older
  have raises : ∀ link ∈ moment.links,
      link.next.manifestVersion = link.prev.manifestVersion + 1 := by
    intro link inside
    apply global.raised link
    rw [same]
    exact mem_append_right _ inside
  rw [World.history, same] at member
  exact ⟨newer, same, began.chained.since raises member late⟩

theorem version_le_current (global : Global h σ) (member : root ∈ σ.history) :
    root.manifestVersion ≤ σ.root.manifestVersion := by
  rcases global.chained.le_current global.raised member with same | lower
  · rw [same]
  · exact le_of_lt lower

theorem Committed.grows (global : Global h σ) (grows : Grows σ σ') (began : Began σ moment)
    (committed : Committed h σ moment name oid) : Committed h σ' moment name oid := by
  obtain ⟨root, between, found⟩ := committed
  exact ⟨root, between.later grows.links,
    value_grows global grows (between.mem_history began) found⟩

/-! What one step does to the lock, to the bare and to the push that writes into it. -/

theorem Move.lock_frame (moved : Move h exporter uploader t g seat l g' seat')
    (own : At h g dirty t seat) (apart : g.writer ≠ none → g.readers = ∅) :
    (∀ other, other ≠ t → g.writer = some other → g'.writer = some other) ∧
      (∀ other, other ≠ t → other ∈ g.readers → other ∈ g'.readers) ∧
      (g'.writer ≠ none → g'.readers = ∅) ∧
      ∀ other, g'.writer = some other → g.writer = some other ∨ (other = t ∧ seat.phase = .idle) := by
  have released (held : g.writer = some t) :
      ∀ other, other ≠ t → g.writer = some other → (none : Option ThreadId) = some other := by
    intro other different same
    exact absurd (Option.some.inj (same.symm.trans held)) different
  have taken (free : g.writer = none) :
      ∀ other, other ≠ t → g.writer = some other → some t = some other := by
    intro other _ same
    cases free.symm.trans same
  have acquired : ∀ other, some t = some other → other = t := by
    intro other same
    exact (Option.some.inj same).symm
  cases moved with
  | lock free unread | lockPush free unread | lockFirst free unread =>
    exact ⟨taken free, fun _ _ inside => inside, fun _ => unread,
      fun other same => .inr ⟨acquired other same, rfl⟩⟩
  | readRootFails | unchanged | rebuild | rebuildFails | release =>
    exact ⟨released own.1, fun _ _ inside => inside, fun busy => absurd rfl busy,
      fun other same => by cases same⟩
  | rlock free =>
    exact ⟨fun _ _ same => same, fun _ _ inside => Finset.mem_insert_of_mem inside,
      fun busy => absurd free busy, fun _ same => .inl same⟩
  | answer =>
    refine ⟨fun _ _ same => same, fun other different inside =>
      Finset.mem_erase.mpr ⟨different, inside⟩, fun busy => ?_, fun _ same => .inl same⟩
    have none := apart busy
    have reading := own.1
    rw [none] at reading
    cases reading
  | _ =>
    exact ⟨fun _ _ same => same, fun _ _ inside => inside, apart, fun _ same => .inl same⟩

theorem value_of_list {refs : RefMap} (listed : list h σ.objects root.body = .ok refs)
    (found : refs.lookup name = some oid) : value h σ root name = some oid := by
  unfold value
  rw [listed]
  exact found

theorem Move.bare_frame (global : Global h g.world)
    (moved : Move h exporter uploader t g seat l g' seat') (own : At h g dirty t seat) :
    ((g'.sentinel = none ∨ g'.sentinel = g.sentinel) ∧
      ∀ name oid, g'.bare.refs.lookup name = some oid → g.bare.refs.lookup name = some oid ∨
        ∃ p, seat'.writes = some p ∧ (name, oid) ∈ refUpdates (accepted p.statuses) ∧
          deletes oid = false) ∨
    ((∀ version tx, g'.sentinel = some (version, tx) → version ≤ g'.world.root.manifestVersion) ∧
      ∀ name oid, g'.bare.refs.lookup name = some oid →
        value h g'.world g'.world.root name = some oid) := by
  cases moved with
  | rebuild stale exported =>
    refine .inr ⟨fun version tx same => ?_, fun name oid found => ?_⟩
    · cases same
      exact version_le_current global own.2.2.1
    · exact value_of_list (export_refs exported) found
  | rebuildFails stale written =>
    refine .inr ⟨fun version tx same => ?_, fun name oid found => ?_⟩
    · cases same
    · obtain ⟨refs, listed, held⟩ := written name oid found
      exact value_of_list listed held
  | @applyRef _ p u rest =>
    refine .inl ⟨.inr rfl, fun name oid found => ?_⟩
    have committed := own.2.2 p rfl u List.mem_cons_self
    rw [lookup_applyUpdate] at found
    by_cases same : name = u.refname
    · rw [if_pos same] at found
      split at found
      · cases found
      · next kept =>
          cases found
          exact .inr ⟨p, rfl, List.mem_map.mpr ⟨u, committed, by rw [same]⟩,
            by simpa using kept⟩
    · rw [if_neg same] at found
      exact .inl found
  | release marked => exact .inl ⟨ite_eq_or_eq .., fun name oid found => .inl found⟩
  | _ => exact .inl ⟨.inr rfl, fun name oid found => .inl found⟩

theorem request_kept {phase phase' : Phase git} {l : Writers.Label}
    (moved : Writers.Move h t σ phase l σ' phase') (asked : requestOf phase = some p)
    (past : phase ≠ .checked p) (own : (requestOf phase').isSome) :
    requestOf phase' = some p ∧ phase' ≠ .checked p := by
  have failed {job : Job git} {reason : String} (same : requestOfJob job = some p) :
      requestOf (job.failed reason) = some p ∧ job.failed reason ≠ .checked p := by
    cases job with
    | push p' plan => exact ⟨same, by simp [Job.failed]⟩
    | _ => cases same
  cases moved with
  | stop => cases own
  | receive | turnDown | importSource | importUpload | importReady | snapshot | backfill
  | repack | uploadRepack | compact | bundle | startReshard | putReshard | reshardReady => cases asked
  | screen | screenOut =>
    cases asked
    exact absurd rfl past
  | callFails | giveUp | commitFails => exact failed asked
  | casTaken reply current unused =>
    cases reply with
    | applied | mismatch => exact ⟨asked, by simp [Job.afterReply]⟩
    | failed cause => exact failed asked
  | done other =>
    rename_i job body
    cases job with
    | push p' plan => exact absurd rfl (other p' plan)
    | _ => cases asked
  | _ => exact ⟨asked, by simp⟩

theorem Move.writes_kept (moved : Move h exporter uploader t g seat l g' seat')
    (own : At h g dirty t seat) (writes : seat.writes = some p) :
    seat'.writes = some p ∨ ∃ course report, seat = .pushing true (.reported p course report) [] ∧
      ∃ marked, l = .release marked ∧ (marked = true → g'.sentinel = none) := by
  cases moved with
  | pushWork moved mine =>
    rename_i touched phase phase' l σ
    cases touched with
    | false => cases writes
    | true =>
      obtain ⟨-, asked, -⟩ := own
      obtain ⟨p', same, past⟩ := asked rfl
      cases same.symm.trans writes
      exact .inl (request_kept moved same past mine).1
  | @applyRef touched | @applyFails touched =>
    cases touched with
    | false => cases writes
    | true => exact .inl writes
  | @release touched p' course report marked =>
    cases touched with
    | false => cases writes
    | true =>
      cases writes
      exact .inr ⟨course, report, rfl, marked, rfl, fun done => by rw [done]; rfl⟩
  | _ => cases writes

/-! Stability of what the other threads know. -/

theorem Parked.stable (global : Global h g.world) (parked : Parked h g dirty f)
    (grows : Grows g.world g'.world)
    (writer : ∀ other, g'.writer = some other → g.writer = some other ∨ Silent other g.world)
    (refs : ∀ name oid, g'.bare.refs.lookup name = some oid →
      (g.bare.refs.lookup name = some oid ∧
        (dirty name oid → dirty' name oid ∨ Committed h g'.world f.began name oid)) ∨
      dirty' name oid ∨ Committed h g'.world f.began name oid) : Parked h g' dirty' f := by
  refine ⟨parked.began.grows grows, fun other same link inside => ?_, fun name oid found => ?_⟩
  · rcases writer other same with before | silent
    · exact parked.unheard other before link inside
    · obtain ⟨newer, links⟩ := parked.began.older
      exact silent link (by rw [links]; exact mem_append_right _ inside)
  · rcases refs name oid found with ⟨old, kept⟩ | new
    · rcases parked.refs name oid old with written | committed
      · exact kept written
      · exact .inr (committed.grows global grows parked.began)
    · exact new

theorem Goal.Began.grows (began : goal.Began σ) (grows : Grows σ σ') : goal.Began σ' := by
  cases goal with
  | fetch f => exact .grows began grows
  | push => trivial

theorem At.stable {other : ThreadId} (known : At h g dirty other seat)
    (grows : Grows g.world g'.world) (writer : g.writer = some other → g'.writer = some other)
    (readers : other ∈ g.readers → other ∈ g'.readers)
    (parked : ∀ f, seat = .opened (.fetch f) ∨ seat = .serving f → Parked h g dirty f →
      Parked h g' dirty' f) : At h g' dirty' other seat := by
  cases seat with
  | opening goal => exact .grows known grows
  | viewed goal view => exact ⟨known.1.grows grows, grows.history known.2.1, known.2.2⟩
  | locked goal => exact ⟨writer known.1, known.2.grows grows⟩
  | syncing goal view =>
    exact ⟨writer known.1, known.2.1.grows grows, grows.history known.2.2.1, known.2.2.2⟩
  | opened goal =>
    cases goal with
    | fetch f => exact parked f (.inl rfl) known
    | push => trivial
  | serving f => exact ⟨readers known.1, parked f (.inr rfl) known.2⟩
  | pushing touched phase todo => exact ⟨writer known.1, known.2⟩
  | outside phase => trivial
  | failed => trivial
  | answered f answer => trivial

/-- A push that has written refs into the bare removes the sentinel, and none that has
committed nothing ends while a fetch waits between `Open` and its read lock. -/
def Settled (e : Event (System git) (ThreadId × Label)) : Prop :=
  ∀ marked phase todo, e.label.2 = .release marked →
    e.pre.threads e.label.1 = .pushing true phase todo → marked = true ∧
      (Silent e.label.1 e.pre.shared.world → ∀ other f, e.pre.threads other ≠ .opened (.fetch f))

theorem Parked.released {course : Course} {report : Statuses} (parked : Parked h g dirty f)
    (global : Global h g.world) (empty : g.world.origin.body.refShards = [])
    (valid : ∀ link ∈ g.world.links, NamesValid link) (held : g.writer = some t)
    (accounted : Accounted h t g.world p report course) (landed : ¬ Silent t g.world)
    (written : (name, oid) ∈ refUpdates (accepted p.statuses)) (kept : deletes oid = false) :
    Committed h g.world f.began name oid := by
  have commits : CommitsOnly t g.world p := by
    cases course with
    | turnedDown => exact absurd accounted.1 landed
    | commitFailed | reread seen => exact accounted.2.1
  simp only [Silent, not_forall, not_not] at landed
  obtain ⟨link, member, mine⟩ := landed
  obtain ⟨plan, job⟩ := commits link member mine
  obtain ⟨u, committed, same⟩ := List.mem_map.mp written
  cases same
  obtain ⟨newer, links⟩ := parked.began.older
  have recent : link ∈ newer := by
    rw [links] at member
    rcases mem_append.mp member with new | old
    · exact new
    · exact absurd mine (parked.unheard t held link old)
  refine ⟨link.next, ⟨newer, links, .inr ⟨link, recent, rfl⟩⟩, ?_⟩
  rw [global.push_sets empty valid member job committed, wanted, if_neg]
  intro null
  simp [deletes, null] at kept

theorem parked_of_refs (global : Global h g.world) (began : Began g.world f.began)
    (free : g.writer = none)
    (refs : ∀ name oid, g.bare.refs.lookup name = some oid → dirty name oid ∨
      ∃ root ∈ g.world.history, f.began.root.manifestVersion ≤ root.manifestVersion ∧
        value h g.world root name = some oid) : Parked h g dirty f := by
  refine ⟨began, fun other same => ?_, fun name oid found => ?_⟩
  · cases free.symm.trans same
  · rcases refs name oid found with written | ⟨root, member, late, held⟩
    · exact .inl written
    · exact .inr ⟨root, began.between global member late, held⟩

theorem Goal.saw_current (global : Global h g.world) (began : goal.Began g.world) :
    goal.Saw g.world.root := by
  cases goal with
  | fetch f => exact version_le_current global (Mirror.Began.root_mem began)
  | push => trivial

theorem Move.own (global : Global h g.world) (moved : Move h exporter uploader t g seat l g' seat')
    (known : At h g dirty t seat) (vouched : Vouched h g dirty)
    (kept : (∀ marked, l ≠ .release marked) → ∀ name oid, dirty name oid → dirty' name oid) :
    At h g' dirty' t seat' := by
  have current : g.world.root ∈ g.world.history := global.chained.current_mem
  -- a sentinel that names `view` vouches for every ref of the bare
  have checked {f : Fetch git} {view : Root} (began : Began g.world f.began)
      (same : g.sentinel = some (sentinelOf view)) (work : ∀ marked, l ≠ .release marked)
      (late : f.began.root.manifestVersion ≤ view.manifestVersion) :
      ∀ name oid, g.bare.refs.lookup name = some oid → dirty' name oid ∨
        ∃ root ∈ g.world.history, f.began.root.manifestVersion ≤ root.manifestVersion ∧
          value h g.world root name = some oid := by
    intro name oid found
    rcases vouched _ _ same name oid found with written | ⟨root, member, later, held⟩
    · exact .inl (kept work name oid written)
    · exact .inr ⟨root, member, late.trans later, held⟩
  cases moved with
  | startFetch request => exact ⟨global.chained, [], rfl⟩
  | @current goal free same =>
    cases goal with
    | fetch f =>
      have began : Began g.world f.began := known
      exact parked_of_refs global began free
        (checked began same (by simp) (version_le_current global began.root_mem))
    | push => trivial
  | lock free unread | lockFirst free unread => exact ⟨rfl, known⟩
  | readRoot => exact ⟨known.1, known.2, current, Goal.saw_current global known.2⟩
  | readFirst => exact ⟨known, current, Goal.saw_current global known⟩
  | @unchanged goal view same =>
    cases goal with
    | fetch f =>
      obtain ⟨-, began, -, late⟩ := known
      exact parked_of_refs global began rfl (checked began same (by simp) late)
    | push => trivial
  | @rebuild goal view result stale exported =>
    cases goal with
    | fetch f =>
      have began : Began g.world f.began := known.2.1
      refine parked_of_refs global began rfl fun name oid found => .inr ?_
      exact ⟨_, current, version_le_current global began.root_mem,
        value_of_list (export_refs exported) found⟩
    | push => trivial
  | rlock free =>
    refine ⟨Finset.mem_insert_self _ _, known.began, known.unheard, fun name oid found => ?_⟩
    rcases known.refs name oid found with written | committed
    · exact .inl (kept (by simp) name oid written)
    · exact .inr committed
  | lockPush free unread => exact ⟨rfl, by simp, by simp⟩
  | indexPack inbound => exact ⟨known.1, by simp, by simp⟩
  | @pushWork touched phase phase' l σ moved mine =>
    refine ⟨known.1, fun touches => ?_, fun p same u inside => ?_⟩
    · obtain ⟨p, asked, past⟩ := known.2.1 touches
      exact ⟨p, request_kept moved asked past mine⟩
    · rw [same] at inside
      exact inside
  | applyRef =>
    refine ⟨known.1, fun _ => ⟨_, rfl, by simp⟩, fun p same u inside => ?_⟩
    exact known.2.2 p same u (List.mem_cons_of_mem _ inside)
  | applyFails => exact ⟨known.1, fun _ => ⟨_, rfl, by simp⟩, by simp⟩
  | _ => trivial

theorem Dirty.step (inv : Inv h s) (step : Step h exporter uploader s (t, l) s')
    (dirty : Dirty s name oid) :
    Dirty s' name oid ∨ ∃ p course report,
      s.threads t = .pushing true (.reported p course report) [] ∧
        (∃ marked, l = .release marked ∧ (marked = true → s'.shared.sentinel = none)) ∧
        (name, oid) ∈ refUpdates (accepted p.statuses) ∧ deletes oid = false := by
  obtain ⟨moved, frame⟩ := step.moved
  obtain ⟨owner, p, writes, written, kept⟩ := dirty
  by_cases same : owner = t
  · subst same
    rcases moved.writes_kept (inv.seats owner) writes with still | ⟨course, report, seat, label⟩
    · exact .inl ⟨owner, p, still, written, kept⟩
    · exact .inr ⟨p, course, report, seat, label, written, kept⟩
  · exact .inl ⟨owner, p, by rw [frame owner same]; exact writes, written, kept⟩

/-- One settled step keeps the invariant. -/
theorem Inv.step (safe : Interleave.Safe (Global h) (Local h) (bucketView s))
    (empty : s.shared.world.origin.body.refShards = [])
    (valid : ∀ link ∈ s.shared.world.links, NamesValid link) (inv : Inv h s)
    (settled : Settled ⟨s, (t, l), s'⟩) (step : Step h exporter uploader s (t, l) s') :
    Inv h s' := by
  obtain ⟨moved, frame⟩ := step.moved
  have global : Global h s.shared.world := safe.global
  have known := inv.seats t
  have after : Global h s'.shared.world ∧ Grows s.shared.world s'.shared.world := by
    rcases moved.seen with ⟨world, -⟩ | ⟨l', stepped⟩
    · rw [world]
      exact ⟨global, .refl _⟩
    · obtain ⟨kept, -, guaranteed⟩ := move_safe global (safe.thread t) stepped
      exact ⟨kept, guaranteed.grows⟩
  obtain ⟨global', grows⟩ := after
  obtain ⟨writer, readers, apart, acquired⟩ := moved.lock_frame known inv.apart
  have silent : ∀ other, s'.shared.writer = some other →
      s.shared.writer = some other ∨ Silent other s.shared.world := by
    intro other same
    rcases acquired other same with before | ⟨rfl, idle⟩
    · exact .inl before
    · have here := safe.thread other
      simp only [bucketView, idle] at here
      exact .inr here
  have current : s'.shared.world.root ∈ s'.shared.world.history := global'.chained.current_mem
  refine ⟨apart, ?_, fun other => ?_⟩
  · intro version tx same name oid found
    rcases moved.bare_frame global known with ⟨sentinel, refs⟩ | ⟨late, refs⟩
    · rcases sentinel with gone | before
      · cases gone.symm.trans same
      · rcases refs name oid found with old | ⟨p, writes, written, kept⟩
        · rcases inv.vouched version tx (before ▸ same) name oid old with dirty | held
          · rcases dirty.step inv step with still | ⟨_, _, _, seat, ⟨marked, label, gone⟩, -⟩
            · exact .inl still
            · cases (gone (settled marked _ _ label seat).1).symm.trans same
          · obtain ⟨root, member, late, holds⟩ := held
            exact .inr ⟨root, grows.history member, late, value_grows global grows member holds⟩
        · exact .inl ⟨t, p, writes, written, kept⟩
    · exact .inr ⟨_, current, late version tx same, refs name oid found⟩
  · by_cases same : other = t
    · subst same
      refine moved.own global known inv.vouched fun work name oid dirty => ?_
      rcases dirty.step inv step with still | ⟨_, _, _, -, ⟨marked, released, -⟩, -⟩
      · exact still
      · exact absurd released (work marked)
    · rw [frame other same]
      refine (inv.seats other).stable grows (writer other same) (readers other same) ?_
      intro f which parked
      refine parked.stable global grows silent fun name oid found => ?_
      rcases moved.bare_frame global known with ⟨-, refs⟩ | ⟨-, refs⟩
      · rcases refs name oid found with old | ⟨p, writes, written, kept⟩
        · refine .inl ⟨old, fun dirty => ?_⟩
          rcases dirty.step inv step with still |
            ⟨p, course, report, seat, ⟨marked, label, -⟩, written, kept⟩
          · exact .inl still
          · right
            rw [seat] at known
            have landed : ¬ Silent t s.shared.world := by
              intro nothing
              rcases which with waiting | reading
              · exact (settled marked _ _ label seat).2 nothing other f waiting
              · have inside := inv.seats other
                rw [reading] at inside
                have none := inv.apart (by rw [known.1]; simp)
                exact absurd inside.1 (by simp [none])
            have accounted := safe.thread t
            simp only [bucketView, seat] at accounted
            exact (parked.released global empty valid known.1 accounted landed written kept).grows
              global grows parked.began
        · exact .inr (.inl ⟨t, p, writes, written, kept⟩)
      · refine .inr (.inr ⟨_, ?_, refs name oid found⟩)
        exact (parked.began.grows grows).between global' current
          (version_le_current global' (parked.began.grows grows).root_mem)

theorem Inv.start (exporter : Exporter.Tools git) (defaultBranch : RefName) (version : Nat) :
    Inv h (start exporter defaultBranch version) := by
  refine ⟨fun busy => absurd rfl busy, fun version tx same => ?_, fun t => trivial⟩
  cases same

theorem Inv.clean (inv : Inv h s) (reading : s.threads t = .serving f) : ¬ Dirty s name oid := by
  rintro ⟨owner, p, writes, -⟩
  have pushing := inv.seats owner
  have inside := inv.seats t
  rw [reading] at inside
  cases seat : s.threads owner with
  | pushing touched phase todo =>
    rw [seat] at pushing
    have none := inv.apart (by rw [pushing.1]; simp)
    exact absurd inside.1 (by simp [none])
  | _ => simp [seat, Seat.writes] at writes

/-- Reachable from a ref of a root that was current between the two moments. -/
def ReachedBetween (h : Hashing) (σ : World git) (began : Moment git) (oid : OID) : Prop :=
  ∃ root refs, Between began (World.now σ) root ∧
    RefStore.list h σ.objects root.body = .ok refs ∧ ReachedFrom git refs oid

theorem Committed.reaches {tip : OID} (committed : Committed h σ began name tip)
    (reach : Reach git tip oid) : ReachedBetween h σ began oid := by
  obtain ⟨root, between, found⟩ := committed
  obtain ⟨refs, listed, held⟩ := value_iff.mp found
  exact ⟨root, refs, between, listed, name, tip, held, reach⟩

theorem Move.answers (moved : Move h exporter uploader t g seat l g' seat')
    (ends : seat' = .answered f (.ok response)) : g'.world = g.world ∧
      ((f.request.wants = [] ∧ response = ⟨[], [], false, none, none⟩) ∨
        (seat = .serving f ∧
          ∃ advertised, serveFetch uploader g.bare advertised f.request = .ok response)) := by
  cases moved with
  | answerLazily none =>
    cases ends
    exact ⟨rfl, .inl ⟨none, rfl⟩⟩
  | answer =>
    obtain ⟨rfl, served⟩ := Seat.answered.inj ends
    exact ⟨rfl, .inr ⟨rfl, _, served⟩⟩
  | _ => cases ends

theorem Inv.disclosed (inv : Inv h s) (step : Step h exporter uploader s (t, l) s')
    (ends : s'.threads t = .answered f (.ok response)) :
    Disclosed f.request response (ReachedBetween h s'.shared.world f.began) := by
  obtain ⟨world, how⟩ := step.moved.1.answers ends
  rcases how with ⟨wants, rfl⟩ | ⟨reading, advertised, served⟩
  · exact ⟨by simp [wants], by simp, by simp⟩
  · have parked := inv.seats t
    rw [reading] at parked
    refine (serveFetch_ok served).mono fun oid reached => ?_
    obtain ⟨name, tip, found, reach⟩ := reached
    rw [world]
    rcases parked.2.refs name tip found with dirty | committed
    · exact absurd dirty (inv.clean reading)
    · exact committed.reaches reach

/-- In every run of a gateway and of other writers in which pushes end settled and pushed
names are in UTF-8, all that an answered fetch accepts, acknowledges and sends is reachable
from a ref of a root that was current between its start and its end. -/
theorem fetch_serves_committed (exporter : Exporter.Tools git) (uploader : UploadPack.Tools git)
    (defaultBranch : RefName) (version : Nat) (utf8 : Utf8.Valid defaultBranch)
    (events : List (Event (System git) (ThreadId × Label))) (s : System git)
    (run : Run (Step h exporter uploader) (start exporter defaultBranch version) events s)
    (valid : ∀ link ∈ s.shared.world.links, NamesValid link)
    (settled : ∀ e ∈ events, Settled e) :
    ∀ e ∈ events, ∀ f response, e.post.threads e.label.1 = .answered f (.ok response) →
      Disclosed f.request response (ReachedBetween h e.post.shared.world f.began) := by
  have names := run.backward (K := fun s => ∀ link ∈ s.shared.world.links, NamesValid link)
    (fun s l s' step all link member => by
      obtain ⟨newer, grown⟩ := Step.links step
      exact all link (by rw [grown]; exact mem_append_right _ member)) valid
  refine run.every_event
    (I := fun s => (∃ events', Run (Writers.Step h) (Writers.start defaultBranch version) events'
      (bucketView s)) ∧ Inv h s)
    ⟨⟨[], .nil⟩, .start exporter defaultBranch version⟩ ?_ ?_
    (show ∀ e ∈ events, (fun e : Event (System git) (ThreadId × Label) =>
        Settled e ∧ ∀ link ∈ e.pre.shared.world.links, NamesValid link) e from
      fun e member => ⟨settled e member, (names e member).1⟩)
  · rintro s ⟨t, l⟩ s' ⟨⟨earlier, seen⟩, inv⟩ ⟨permitted, all⟩ step
    have empty : s.shared.world.origin.body.refShards = [] := by
      have origin : s.shared.world.origin = _ := run_origin seen
      rw [origin]
      rfl
    refine ⟨?_, inv.step (run_safe utf8 seen) empty all permitted step⟩
    rcases Step.seen step with same | ⟨l', stepped⟩
    · exact ⟨earlier, same ▸ seen⟩
    · exact ⟨_, seen.next stepped⟩
  · rintro s ⟨t, l⟩ s' ⟨-, inv⟩ - step f response ends
    exact inv.disclosed step ends

/-! A push that fails while a fetch waits for its read lock. -/

/-- Every run of the writers is a run in which the gateway does nothing. -/
theorem reached_of_writers (exporter : Exporter.Tools git) (uploader : UploadPack.Tools git)
    {allowed : Event (System git) (ThreadId × Label) → Prop}
    (quiet : ∀ e l, e.label.2 = .bucket l → allowed e) {version : Nat}
    {first s : Writers.System git} (initial : first = Writers.start defaultBranch version)
    (reached : Reached h first s) :
    Interleave.Reached (Move h exporter uploader) allowed (start exporter defaultBranch version)
      ⟨⟨s.shared, initBare exporter, none, none, ∅⟩, fun t => .outside (s.threads t)⟩ := by
  obtain ⟨events, run, -⟩ := reached
  induction run with
  | nil =>
    subst initial
    exact ⟨[], .nil, by simp⟩
  | @next events before after l earlier taken ih =>
    obtain ⟨t, l⟩ := l
    cases taken with
    | @by_thread _ _ shared here moved =>
      have next := ih.take t rfl (.outside moved) (quiet _ _ rfl)
      have same : (fun other => Seat.outside (update before.threads t here other)) =
          update (fun other => Seat.outside (before.threads other)) t (.outside here) :=
        comp_update Seat.outside before.threads t here
      rw [same]
      exact next

def tips (bare : Repository) : List OID := (Dict.entries bare.refs).map Prod.snd

theorem reachedFrom_sample {bare : Repository} :
    ReachedFrom sampleGit bare.refs oid ↔ oid ∈ tips bare := by
  simp only [ReachedFrom, reach_sampleGit, tips, List.mem_map]
  constructor
  · rintro ⟨name, tip, found, rfl⟩
    exact ⟨(name, _), (Dict.mem_entries _ _ _).mpr found, rfl⟩
  · rintro ⟨⟨name, tip⟩, member, rfl⟩
    exact ⟨name, _, (Dict.mem_entries _ _ _).mp member, rfl⟩

def sampleUploader : UploadPack.Tools sampleGit where
  kind := fun _ => .commit
  revListNotAll := fun bare oids => some (oids.filter (· ∉ tips bare))
  packObjects := fun _ wants haves _ _ => some ⟨wants.filter (· ∉ haves), true⟩
  unreached := by
    intro bare oids out made oid
    cases made
    simp [reachedFrom_sample, reach_sampleGit]
  packed := by
    intro bare wants haves tags kept out made oid member
    cases made
    exact Or.inl ⟨oid, (List.mem_filter.mp member).1, .refl⟩

def objectThree : OID := "3333333333333333333333333333333333333333"

def strayBranch : UpdateCommand := ⟨mainRef, objectOne, objectThree⟩

def strayRequest : ReceivePack.Request sampleGit.checkRefFormat :=
  singleRequest strayBranch (by decide) (by decide) (by decide) (by decide)

def strayPush : Push sampleGit := ⟨strayRequest, importedWorld.root, [(strayBranch, .pending)]⟩

def importedBare : Repository := ⟨bothRefs, {objectOne, objectTwo}, mainRef⟩

def strayBare : Repository :=
  ⟨applyUpdate bothRefs (mainRef, objectThree), {objectOne, objectTwo} ∪ {objectThree}, mainRef⟩

def mirrored (bare : Repository) (writer : Option ThreadId) : Gateway sampleGit :=
  ⟨importedWorld, bare, some (sentinelOf importedWorld.root), writer, ∅⟩

theorem import_exported : exportRepository spelledHashing sampleTools importedWorld.packs
    importedWorld.objects importedWorld.root false = .ok ⟨importedBare, 2, 0, true⟩ := by
  decide

def askFor (oid : OID) : Fetch sampleGit := ⟨⟨[oid], [], true, false, false⟩, World.now importedWorld⟩

theorem reached_opened (oid : OID) {allowed : Event (System sampleGit) (ThreadId × Label) → Prop}
    (quiet : ∀ e, (∀ marked, e.label.2 ≠ .release marked) → allowed e) :
    ∃ threads, Interleave.Reached (Move spelledHashing sampleTools sampleUploader) allowed
        (start sampleTools mainRef 1) ⟨mirrored importedBare none, threads⟩ ∧
      threads 5 = .opened (.fetch (askFor oid)) ∧ threads 6 = .outside .idle := by
  have imported := reached_of_writers (h := spelledHashing) sampleTools sampleUploader
    (fun e l bucket => quiet e (by simp [bucket])) rfl (reached_imported spelledHashing)
  have opening := imported.take 5 rfl (.startFetch ⟨[oid], [], true, false, false⟩)
    (quiet _ (by simp))
  have locked := opening.again (.lock rfl rfl) (quiet _ (by simp))
  have syncing := locked.again .readRoot (quiet _ (by simp))
  have opened := syncing.again (.rebuild (by simp) import_exported) (quiet _ (by simp))
  exact ⟨_, opened, rfl, rfl⟩

theorem reached_stray : ∃ threads,
    Interleave.Reached (Move spelledHashing sampleTools sampleUploader) (fun _ => True)
      (start sampleTools mainRef 1)
      ⟨{ mirrored strayBare none with sentinel := none, readers := {5} }, threads⟩ ∧
    threads 5 = .serving (askFor objectThree) := by
  obtain ⟨threads, opened, waits, idle⟩ := reached_opened objectThree fun _ _ => trivial
  have opening := opened.take 6 idle .startPush trivial
  have current := opening.again (.current rfl rfl) trivial
  have locked := current.again (.lockPush rfl rfl) trivial
  have through : gate strayRequest.isAtomic (precheckUpdates (list spelledHashing
      importedWorld.objects importedWorld.root.body) strayRequest.updates) =
      .inr [(strayBranch, .pending)] := by decide
  have checked := locked.again (.pushWork (.receive strayRequest through) rfl) trivial
  have indexed := checked.again (.indexPack {objectThree}) trivial
  have accepted := indexed.again
    (.pushWork (.screen (screens_refl _) (gate_again through)) rfl) trivial
  have applied := accepted.again .applyRef trivial
  have failed := applied.again (.pushWork .prepareFails rfl) trivial
  have released := failed.again (.release true) trivial
  have waiting : update threads 6 (.outside (.reported strayPush .commitFailed
      (settle (.ng "internal-storage-error") strayPush.statuses))) 5 =
      .opened (.fetch (askFor objectThree)) := waits
  have reading := released.take 5 waiting (.rlock rfl) trivial
  exact ⟨_, reading, update_self ..⟩

theorem import_listed : list spelledHashing importedWorld.objects importedWorld.root.body =
    .ok bothRefs := by
  decide

theorem objectThree_uncommitted :
    ¬ ReachedBetween spelledHashing importedWorld (World.now importedWorld) objectThree := by
  rintro ⟨root, refs, ⟨newer, same, current⟩, listed, reached⟩
  obtain rfl : newer = [] := append_left_eq_self.mp same.symm
  have first : root = importedWorld.root := by
    rcases current with begins | ⟨link, member, -⟩
    · exact begins
    · cases member
  subst first
  cases listed.symm.trans import_listed
  have member : objectThree ∈ tips importedBare := reachedFrom_sample.mp reached
  revert member
  decide

/-- The fetch sends an object that no ref of any root ever reached. -/
theorem fetch_serves_uncommitted :
    ∃ events s, Run (Step spelledHashing sampleTools sampleUploader) (start sampleTools mainRef 1)
        events s ∧
      ∃ e ∈ events, ∃ f response, e.post.threads e.label.1 = .answered f (.ok response) ∧
        f.request.wants = [objectThree] ∧ response.pack = some ⟨[objectThree], true⟩ ∧
        ¬ ReachedBetween spelledHashing e.post.shared.world f.began objectThree := by
  obtain ⟨threads, ⟨events, run, -⟩, reading⟩ := reached_stray
  have served : serveFetch sampleUploader strayBare (.ok none) (askFor objectThree).request =
      .ok ⟨[], [], false, none, some ⟨[objectThree], true⟩⟩ := by decide
  refine ⟨_, _, Interleave.extend run 5 reading (.answer (.ok none)), _, List.mem_cons_self,
    askFor objectThree, ⟨[], [], false, none, some ⟨[objectThree], true⟩⟩, ?_, rfl, rfl,
    objectThree_uncommitted⟩
  simp [mirrored, served]

/-- A fetch no push comes near. -/
theorem fetch_serves_committed_sample :
    ∃ events s, Run (Step spelledHashing sampleTools sampleUploader) (start sampleTools mainRef 1)
        events s ∧
      ∃ e ∈ events, ∃ f response, e.post.threads e.label.1 = .answered f (.ok response) ∧
        response.pack = some ⟨[objectOne], true⟩ ∧
        Disclosed f.request response (ReachedBetween spelledHashing e.post.shared.world f.began) := by
  have quiet : ∀ e : Event (System sampleGit) (ThreadId × Label),
      (∀ marked, e.label.2 ≠ .release marked) → Settled e :=
    fun e other marked _ _ released => absurd released (other marked)
  obtain ⟨threads, opened, waits, -⟩ := reached_opened objectOne quiet
  obtain ⟨serving, ⟨events, run, settled⟩, reading⟩ : ∃ serving,
      Interleave.Reached (Move spelledHashing sampleTools sampleUploader) Settled
        (start sampleTools mainRef 1) ⟨{ mirrored importedBare none with readers := {5} }, serving⟩ ∧
      serving 5 = .serving (askFor objectOne) :=
    ⟨_, opened.take 5 waits (.rlock rfl) (quiet _ (by simp)), update_self ..⟩
  have served : serveFetch sampleUploader importedBare (.ok none) (askFor objectOne).request =
      .ok ⟨[], [], false, none, some ⟨[objectOne], true⟩⟩ := by decide
  have answered := Interleave.extend run 5 reading (.answer (.ok none))
  have names : ∀ link ∈ importedWorld.links, NamesValid link := fun link member =>
    moved_names link (List.mem_cons_of_mem _ (List.mem_cons_of_mem _ member))
  have given := fetch_serves_committed sampleTools sampleUploader mainRef 1 (by decide) _ _ answered
    names (List.forall_mem_cons.mpr ⟨quiet _ (by simp), settled⟩) _ List.mem_cons_self
    (askFor objectOne) ⟨[], [], false, none, some ⟨[objectOne], true⟩⟩ (by simp [mirrored, served])
  exact ⟨_, _, answered, _, List.mem_cons_self, askFor objectOne, _, by simp [mirrored, served], rfl,
    given⟩

end BucketVcs.Mirror
