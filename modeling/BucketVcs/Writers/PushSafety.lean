import BucketVcs.Writers.Closure

/-! What a push does to the refs it names, and what its report says about it. -/

namespace BucketVcs.Writers

open Manifest RefStore Importer ReceivePack Maintenance Transition List

variable {git : Git} {h : Hashing} {σ : World git}

def value (h : Hashing) (σ : World git) (root : Root) (name : RefName) : Option OID :=
  match RefStore.list h σ.objects root.body with
  | .ok refs => refs.lookup name
  | .error _ => none

/-- Every committed command found its ref at the old value it names, and no other ref was
touched. -/
structure AppliedAsNamed (h : Hashing) (σ : World git) (p : Push git) (link : Link git) : Prop where
  old : ∀ u ∈ accepted p.statuses, value h σ link.prev u.refname = wanted u.oldOID
  others : ∀ name, value h σ link.next name ≠ value h σ link.prev name →
    ∃ u ∈ accepted p.statuses, u.refname = name

/-- The refs a push updates have the same values in the root it was checked against and in
the root its commit replaces. -/
def Unmoved (h : Hashing) (σ : World git) (p : Push git) (prev : Root) : Prop :=
  ∀ u ∈ accepted p.statuses, value h σ p.first u.refname = value h σ prev u.refname

def NamesValid (link : Link git) : Prop :=
  ∀ p plan, link.job = .push p plan → ∀ u ∈ accepted p.statuses, Utf8.Valid u.refname

variable {link : Link git} {p : Push git} {u : UpdateCommand} {plan : Plan}

theorem NamesValid.fit (valid : NamesValid link) : NamesFit link :=
  fun p plan job _ => valid p plan job

theorem Lists.value {root : Root} {refs : RefMap} (lists : Lists h σ root.body refs)
    (name : RefName) : value h σ root name = refs.lookup name := by
  unfold Writers.value
  rw [lists.listed]

section

variable (checked : Checked h σ p)
include checked

theorem Checked.value (member : u ∈ accepted p.statuses) :
    value h σ p.first u.refname = wanted u.oldOID := by
  obtain ⟨refs, listed, matched⟩ := checked.matched
  unfold Writers.value
  rw [listed]
  exact matched u member

theorem Checked.distinct : (p.statuses.map fun line => line.1.refname).Nodup := by
  have names : (p.statuses.map fun line => line.1.refname) =
      p.request.updates.map UpdateCommand.refname := by
    rw [← checked.commands, map_map]
    rfl
  rw [names]
  exact p.request.distinct

theorem Checked.accepted_distinct : ((accepted p.statuses).map UpdateCommand.refname).Nodup := by
  refine .sublist ?_ checked.distinct
  rw [accepted, map_map]
  exact filter_sublist.map _

theorem Checked.mem_updates (member : u ∈ accepted p.statuses) : u ∈ p.request.updates := by
  rw [← checked.commands]
  exact mem_map.mpr ⟨_, mem_accepted.mp member, rfl⟩

end

theorem Global.push_refs (global : Global h σ) (empty : σ.origin.body.refShards = [])
    (valid : ∀ link ∈ σ.links, NamesValid link) (member : link ∈ σ.links)
    (job : link.job = .push p plan) :
    ∃ before, Lists h σ link.prev.body before ∧
      Lists h σ link.next.body (applyUpdates (refUpdates (accepted p.statuses)) before) := by
  have fit := fun link inside => (valid link inside).fit
  obtain ⟨before, lists⟩ := global.lists empty fit (global.chained.prev_mem member)
  obtain ⟨after, listed, follows⟩ := global.follows member lists (fit link member)
  have ok := (global.linked link member).job
  rw [job] at ok follows
  have named : ∀ u ∈ plan.updates, Utf8.Valid u.1 := by
    intro u inside
    rw [ok.2.2.1] at inside
    obtain ⟨command, accepted, rfl⟩ := mem_map.mp inside
    exact valid link member p plan job command accepted
  refine ⟨before, lists, ?_⟩
  rw [← ok.2.2.1, ← follows.exactly named]
  exact listed

theorem Global.push_sets (global : Global h σ) (empty : σ.origin.body.refShards = [])
    (valid : ∀ link ∈ σ.links, NamesValid link) (member : link ∈ σ.links)
    (job : link.job = .push p plan) (committed : u ∈ accepted p.statuses) :
    value h σ link.next u.refname = wanted u.newOID := by
  have ok := (global.linked link member).job
  rw [job] at ok
  obtain ⟨before, -, after⟩ := global.push_refs empty valid member job
  rw [after.value]
  have hex := (p.request.wellFormed u (ok.1.mem_updates committed)).2.2.1
  exact lookup_refUpdates_of_mem ok.1.accepted_distinct committed hex

theorem Global.push_keeps (global : Global h σ) (empty : σ.origin.body.refShards = [])
    (valid : ∀ link ∈ σ.links, NamesValid link) (member : link ∈ σ.links)
    (job : link.job = .push p plan) {name : RefName}
    (outside : name ∉ (accepted p.statuses).map UpdateCommand.refname) :
    value h σ link.next name = value h σ link.prev name := by
  obtain ⟨before, lists, after⟩ := global.push_refs empty valid member job
  rw [lists.value, after.value]
  exact lookup_refUpdates_of_not_mem outside

/-- In every run that keeps pushed ref names in UTF-8, a push is applied to the values it
names exactly if the refs it updates did not move between its two root reads. -/
theorem push_applied_as_named_iff (defaultBranch : RefName) (version : Nat)
    (utf8 : Utf8.Valid defaultBranch)
    (events : List (Event (System git) (ThreadId × Label))) (s : System git)
    (run : Run (Step h) (start defaultBranch version) events s)
    (valid : ∀ link ∈ s.shared.links, NamesValid link) :
    ∀ link ∈ s.shared.links, ∀ p plan, link.job = .push p plan →
      (AppliedAsNamed h s.shared p link ↔ Unmoved h s.shared p link.prev) := by
  intro link member p plan job
  have global := (run_safe utf8 run).global
  have empty : s.shared.origin.body.refShards = [] := by rw [run_origin run]; rfl
  have ok := (global.linked link member).job
  rw [job] at ok
  constructor
  · intro applied u committed
    rw [ok.1.value committed, applied.old u committed]
  · intro unmoved
    refine ⟨fun u committed => ?_, fun name changed => ?_⟩
    · rw [← unmoved u committed, ok.1.value committed]
    · by_contra untouched
      apply changed
      apply global.push_keeps empty valid member job
      intro inside
      obtain ⟨u, committed, same⟩ := mem_map.mp inside
      exact untouched ⟨u, committed, same⟩

/-! A push that was checked before another one deleted the ref, and built afterwards. -/

def moveBranch : UpdateCommand := ⟨otherRef, objectTwo, objectOne⟩

def moveRequest : ReceivePack.Request sampleGit.checkRefFormat :=
  singleRequest moveBranch (by decide) (by decide) (by decide) (by decide)

def movedRefs : RefMap := Dict.insertAll [(mainRef, objectOne), (otherRef, objectOne)] ∅

theorem packsAll_moved : PacksAll sampleGit movedRefs packOne :=
  packsAll_ofEntries (by decide) rfl (by decide)

def dropPush : Push sampleGit := ⟨dropRequest, importedWorld.root, [(dropBranch, .pending)]⟩

def movePush : Push sampleGit := ⟨moveRequest, importedWorld.root, [(moveBranch, .pending)]⟩

def movedPlan : Plan := inlinePlan droppedWorld.root [(otherRef, objectOne)] packOne

def movedWorld : World sampleGit := droppedWorld.commit 1 (.push movePush movedPlan) 4 movedPlan.body

theorem reached_dropped : ∃ threads, Reached spelledHashing (start mainRef 1) ⟨droppedWorld, threads⟩ ∧
    threads 1 = .accepted movePush ∧
    threads 2 = .landed (.push dropPush droppedPlan) droppedPlan.body := by
  have checked := (reached_imported spelledHashing).accept 1 rfl moveRequest
    (show _ = Sum.inr [(moveBranch, Status.pending)] by decide)
  have accepted := checked.accept 2 rfl dropRequest
    (show _ = Sum.inr [(dropBranch, Status.pending)] by decide)
  have dropping := accepted.build
    (show prepare spelledHashing sampleGit _ _ (bareOf oneRef) _ (sampleRepack packOne) ⟨none, ""⟩ =
      .ok droppedPlan by decide)
    packsAll_one rfl
  have dropped := dropping.commit (fun _ => none) 3 .applied
    (show _ = Except.ok droppedPlan.body from rfl) rfl (by decide)
  exact ⟨_, dropped, rfl, rfl⟩

theorem Reached.moved {threads : ThreadId → Phase sampleGit}
    (reached : Reached spelledHashing (start mainRef 1) ⟨droppedWorld, threads⟩)
    (stands : threads 1 = .accepted movePush) :
    Reached spelledHashing (start mainRef 1) (Interleave.advance ⟨droppedWorld, threads⟩ 1 movedWorld
      (.landed (.push movePush movedPlan) movedPlan.body)) := by
  have unused : ∀ r ∈ (droppedWorld.putPack (packEntry (sampleRepack packOne))).history,
      r.version ≠ 4 := by decide
  have building := Reached.build (reached.resume stands)
    (show prepare spelledHashing sampleGit droppedWorld.objects droppedWorld.root (bareOf movedRefs)
      [(otherRef, objectOne)] (sampleRepack packOne) ⟨none, ""⟩ = .ok movedPlan
      by decide)
    packsAll_moved rfl
  exact building.commit (fun _ => none) 4 .applied
    (show _ = Except.ok movedPlan.body from rfl) rfl unused

theorem reached_moved : ∃ s : System sampleGit, Reached spelledHashing (start mainRef 1) s ∧
    s.shared = movedWorld := by
  obtain ⟨threads, dropped, stands, -⟩ := reached_dropped
  exact ⟨_, dropped.moved stands, rfl⟩

theorem value_before_move : value spelledHashing movedWorld droppedWorld.root otherRef = none := by
  decide

theorem value_after_move :
    value spelledHashing movedWorld movedWorld.root otherRef = some objectOne := by
  decide

/-- The command names 2222.. as the old value; the root it is applied to has no such ref. -/
theorem push_overwrites_unnamed_value :
    ∃ events s, Run (Step spelledHashing) (start mainRef 1 : System sampleGit) events s ∧
      ∃ link ∈ s.shared.links, ∃ p plan, link.job = .push p plan ∧
        ∃ u ∈ accepted p.statuses, u.oldOID = objectTwo ∧
          value spelledHashing s.shared link.prev u.refname = none ∧
          value spelledHashing s.shared link.next u.refname = some objectOne := by
  obtain ⟨s, ⟨events, run, -⟩, shared⟩ := reached_moved
  refine ⟨events, s, run, ?_⟩
  rw [shared]
  exact ⟨_, mem_cons_self, movePush, movedPlan, rfl, moveBranch, mem_singleton_self _, rfl,
    value_before_move, value_after_move⟩

theorem moved_names : ∀ link ∈ movedWorld.links, NamesValid link := by
  intro link member p plan job u committed
  rcases mem_cons.mp member with rfl | older
  · cases job
    cases mem_singleton.mp committed
    decide
  · rcases mem_cons.mp older with rfl | oldest
    · cases job
      cases mem_singleton.mp committed
      decide
    · cases mem_singleton.mp oldest
      cases job

theorem push_applied_as_named_sample :
    ∃ events s, Run (Step spelledHashing) (start mainRef 1 : System sampleGit) events s ∧
      (∃ link ∈ s.shared.links, ∃ p plan, link.job = .push p plan ∧
        AppliedAsNamed spelledHashing s.shared p link) ∧
      ∃ link ∈ s.shared.links, ∃ p plan, link.job = .push p plan ∧
        ¬ AppliedAsNamed spelledHashing s.shared p link := by
  obtain ⟨s, ⟨events, run, -⟩, shared⟩ := reached_moved
  have decided := push_applied_as_named_iff mainRef 1 (by decide) events s run
  rw [shared] at decided
  refine ⟨events, s, run, ?_⟩
  rw [shared]
  refine ⟨⟨_, mem_cons_of_mem _ mem_cons_self, _, _, rfl, ?_⟩,
    ⟨_, mem_cons_self, _, _, rfl, ?_⟩⟩
  · refine (decided moved_names _ (mem_cons_of_mem _ mem_cons_self) _ _ rfl).mpr ?_
    intro u committed
    cases mem_singleton.mp committed
    rfl
  · intro applied
    have unmoved := (decided moved_names _ mem_cons_self _ _ rfl).mp applied
    exact absurd (unmoved moveBranch (mem_singleton_self _)) (by decide)

/-! What the report of a push says about the roots the request committed. -/

variable {t : ThreadId}

/-- The report of thread `t` matches the roots it committed. -/
structure ReportRight (h : Hashing) (t : ThreadId) (σ : World git) (report : Statuses) : Prop where
  ok : ∀ line ∈ report, line.2 = .ok → ∃ link ∈ σ.links, link.thread = t ∧
    value h σ link.prev line.1.refname = wanted line.1.oldOID ∧
    value h σ link.next line.1.refname = wanted line.1.newOID
  ng : ∀ line ∈ report, ∀ reason, line.2 = .ng reason → ∀ link ∈ σ.links, link.thread = t →
    value h σ link.next line.1.refname = value h σ link.prev line.1.refname

/-- Every root the request replaced had the pushed values already. -/
def NoEffect (h : Hashing) (t : ThreadId) (σ : World git) (p : Push git) : Prop :=
  ∀ link ∈ σ.links, link.thread = t →
    ∀ u ∈ accepted p.statuses, value h σ link.prev u.refname = wanted u.newOID

/-- Every pushed ref had, in a root the request replaced, the value the check saw. -/
def CheckedValue (h : Hashing) (t : ThreadId) (σ : World git) (p : Push git) : Prop :=
  ∀ u ∈ accepted p.statuses, ∃ link ∈ σ.links, link.thread = t ∧
    value h σ link.prev u.refname = value h σ p.first u.refname

/-- The final root read sees more than one commit since the check. -/
def Overtaken (first : Root) (seen : Option Root) : Prop :=
  ∃ root, seen = some root ∧ first.manifestVersion + 1 < root.manifestVersion

/-- What each course of a request needs for its report to be right. -/
def OutcomeKnown (h : Hashing) (t : ThreadId) (σ : World git) (p : Push git) : Course → Prop
  | .turnedDown => True
  | .commitFailed => NoEffect h t σ p
  | .reread seen => (Overtaken p.first seen → NoEffect h t σ p) ∧
      (¬ Overtaken p.first seen → CheckedValue h t σ p)

variable {seen : Option Root}

theorem verdict_overtaken {first : Root} (overtaken : Overtaken first seen) :
    verdict first seen = .ng "stale-manifest" := by
  obtain ⟨root, rfl, later⟩ := overtaken
  exact if_pos later

theorem verdict_not_overtaken {first : Root}
    (current : ¬ Overtaken first seen) : verdict first seen = .ok := by
  cases seen with
  | none => rfl
  | some root => exact if_neg fun later => current ⟨root, rfl, later⟩

theorem settle_accepted {status : Status} {statuses : Statuses} {u : UpdateCommand}
    (member : u ∈ accepted statuses) : (u, status) ∈ settle status statuses :=
  mem_map.mpr ⟨(u, .pending), mem_accepted.mp member, if_pos rfl⟩

theorem Checked.settled {p : Push git} (checked : Checked h σ p) {status : Status}
    {line : UpdateCommand × Status} (member : line ∈ settle status p.statuses) :
    (line.1 ∈ accepted p.statuses ∧ line.2 = status) ∨
      (line.1.refname ∉ (accepted p.statuses).map UpdateCommand.refname ∧ line.2 ≠ .ok) := by
  obtain ⟨before, inside, rfl⟩ := mem_map.mp member
  by_cases pending : before.2 = .pending
  · rw [if_pos pending]
    exact .inl ⟨mem_accepted.mpr (pending ▸ inside), rfl⟩
  · rw [if_neg pending]
    refine .inr ⟨fun named => ?_, checked.undecided before inside⟩
    obtain ⟨u, committed, same⟩ := mem_map.mp named
    -- each ref is named once, so the two lines are one
    have equal := inj_on_of_nodup_map checked.distinct (mem_accepted.mp committed) inside same
    exact pending (equal ▸ rfl)

section Report

variable (global : Global h σ) (empty : σ.origin.body.refShards = [])
  (valid : ∀ link ∈ σ.links, NamesValid link) {p : Push git} (commits : CommitsOnly t σ p)
  (checked : Checked h σ p)

include global empty valid commits

theorem rejected_unchanged {name : RefName}
    (outside : name ∉ (accepted p.statuses).map UpdateCommand.refname) {link : Link git}
    (member : link ∈ σ.links) (own : link.thread = t) :
    value h σ link.next name = value h σ link.prev name := by
  obtain ⟨plan, job⟩ := commits link member own
  exact global.push_keeps empty valid member job outside

theorem committed_value {u : UpdateCommand} (committed : u ∈ accepted p.statuses)
    {link : Link git} (member : link ∈ σ.links) (own : link.thread = t) :
    value h σ link.next u.refname = wanted u.newOID := by
  obtain ⟨plan, job⟩ := commits link member own
  exact global.push_sets empty valid member job committed

include checked

theorem refused_right_iff (reason : String) :
    ReportRight h t σ (settle (.ng reason) p.statuses) ↔ NoEffect h t σ p := by
  constructor
  · intro right link member own u committed
    rw [← right.ng _ (settle_accepted committed) reason rfl link member own]
    exact committed_value global empty valid commits committed member own
  · intro unchanged
    refine ⟨fun line inside said => ?_, fun line inside _ _ link member own => ?_⟩
    · exact absurd said (settle_ne_ok checked.undecided line inside)
    · rcases checked.settled inside with ⟨committed, -⟩ | ⟨outside, -⟩
      · rw [committed_value global empty valid commits committed member own,
          unchanged link member own _ committed]
      · exact rejected_unchanged global empty valid commits outside member own

theorem confirmed_right_iff : ReportRight h t σ (settle .ok p.statuses) ↔ CheckedValue h t σ p := by
  constructor
  · intro right u committed
    obtain ⟨link, member, own, old, -⟩ := right.ok _ (settle_accepted committed) rfl
    exact ⟨link, member, own, old.trans (checked.value committed).symm⟩
  · intro unmoved
    refine ⟨fun line inside said => ?_, fun line inside reason said link member own => ?_⟩
    · rcases checked.settled inside with ⟨committed, -⟩ | ⟨-, undecided⟩
      · obtain ⟨link, member, own, same⟩ := unmoved _ committed
        exact ⟨link, member, own, same.trans (checked.value committed),
          committed_value global empty valid commits committed member own⟩
      · exact absurd said undecided
    · rcases checked.settled inside with ⟨-, confirmed⟩ | ⟨outside, -⟩
      · rw [confirmed] at said
        cases said
      · exact rejected_unchanged global empty valid commits outside member own

end Report

/-- In every run that keeps pushed ref names in UTF-8, the report of a push matches the
roots it committed exactly if its outcome is known in the sense of `OutcomeKnown`. -/
theorem push_report_right_iff (defaultBranch : RefName) (version : Nat)
    (utf8 : Utf8.Valid defaultBranch)
    (events : List (Event (System git) (ThreadId × Label))) (s : System git)
    (run : Run (Step h) (start defaultBranch version) events s)
    (valid : ∀ link ∈ s.shared.links, NamesValid link) :
    ∀ t p course report, s.threads t = .reported p course report →
      (ReportRight h t s.shared report ↔ OutcomeKnown h t s.shared p course) := by
  intro t p course report phase
  have safe := run_safe utf8 run
  have empty : s.shared.origin.body.refShards = [] := by rw [run_origin run]; rfl
  have accounted : Accounted h t s.shared p report course := by
    have known := safe.thread t
    rw [phase] at known
    exact known
  cases course with
  | turnedDown =>
    obtain ⟨silent, unconfirmed⟩ := accounted
    refine ⟨fun _ => trivial, fun _ => ⟨fun line inside said => ?_, ?_⟩⟩
    · exact absurd said (unconfirmed line inside)
    · intro line _ reason _ link member own
      exact absurd own (silent link member)
  | commitFailed =>
    obtain ⟨checked, commits, reason, rfl⟩ := accounted
    exact refused_right_iff safe.global empty valid commits checked reason
  | reread seen =>
    obtain ⟨checked, commits, rfl, -, -⟩ := accounted
    by_cases overtaken : Overtaken p.first seen
    · rw [verdict_overtaken overtaken,
        refused_right_iff safe.global empty valid commits checked]
      exact ⟨fun unchanged => ⟨fun _ => unchanged, fun current => absurd overtaken current⟩,
        fun known => known.1 overtaken⟩
    · rw [verdict_not_overtaken overtaken,
        confirmed_right_iff safe.global empty valid commits checked]
      exact ⟨fun unmoved => ⟨fun later => absurd later overtaken, fun _ => unmoved⟩,
        fun known => known.2 overtaken⟩

theorem reached_reported : ∃ threads, Reached spelledHashing (start mainRef 1) ⟨movedWorld, threads⟩ ∧
    threads 1 = .reported movePush (.reread (some movedWorld.root))
      [(moveBranch, .ng "stale-manifest")] ∧
    threads 2 = .reported dropPush (.reread (some droppedWorld.root)) [(dropBranch, .ok)] := by
  obtain ⟨threads, dropped, waiting, landed⟩ := reached_dropped
  have reported := dropped.take 2 landed (.report true) trivial
  have moved := Reached.moved reported
    (show Function.update threads 2 _ 1 = .accepted movePush by simpa using waiting)
  exact ⟨_, moved.again (.report true) trivial, rfl, rfl⟩

/-- A push whose root is current is reported as refused. -/
theorem landed_push_reported_refused :
    ∃ events s, Run (Step spelledHashing) (start mainRef 1 : System sampleGit) events s ∧
      ∃ t p course reason, s.threads t = .reported p course [(moveBranch, .ng reason)] ∧
        ∃ link ∈ s.shared.links, link.thread = t ∧ link.next = s.shared.root ∧
          value spelledHashing s.shared link.prev otherRef = none ∧
          value spelledHashing s.shared link.next otherRef = some objectOne := by
  obtain ⟨threads, ⟨events, run, -⟩, refused, -⟩ := reached_reported
  exact ⟨events, _, run, 1, _, _, _, refused, _, mem_cons_self, rfl, rfl,
    value_before_move, value_after_move⟩

theorem push_report_right_sample :
    ∃ events s, Run (Step spelledHashing) (start mainRef 1 : System sampleGit) events s ∧
      ReportRight spelledHashing 2 s.shared [(dropBranch, .ok)] ∧
      ¬ ReportRight spelledHashing 1 s.shared [(moveBranch, .ng "stale-manifest")] := by
  obtain ⟨threads, ⟨events, run, -⟩, refused, confirmed⟩ := reached_reported
  have decided := push_report_right_iff mainRef 1 (by decide) events _ run moved_names
  refine ⟨events, _, run, (decided 2 _ _ _ confirmed).mpr ⟨?_, ?_⟩, fun right => ?_⟩
  · rintro ⟨root, same, later⟩
    cases same
    exact absurd later (by decide)
  · intro _ u committed
    cases mem_singleton.mp committed
    exact ⟨_, mem_cons_of_mem _ mem_cons_self, rfl, rfl⟩
  · have overtaken : Overtaken movePush.first (some movedWorld.root) := ⟨_, rfl, by decide⟩
    have unchanged := ((decided 1 _ _ _ refused).mp right).1 overtaken _ mem_cons_self rfl
      moveBranch (mem_singleton_self _)
    exact absurd (value_before_move.symm.trans unchanged) (by decide)

end BucketVcs.Writers
