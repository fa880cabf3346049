import BucketVcs.Exporter
import BucketVcs.Writers.PushSafety

/-! Which committed roots a gateway can make a bare repository of. -/

namespace BucketVcs.Writers

open Manifest RefStore Importer ReceivePack Maintenance RefNames Exporter Transition List Finmap

variable {git : Git} {h : Hashing} {σ : World git}

/-- The refs a push leaves: none, or the default branch among them, and no name a
directory of another. -/
def LeavesPresentable (h : Hashing) (σ : World git) (link : Link git) : Prop :=
  ∀ p plan, link.job = .push p plan →
    ∀ before, RefStore.list h σ.objects link.prev.body = .ok before →
      (applyUpdates (refUpdates (accepted p.statuses)) before = ∅ ∨
        link.prev.body.defaultBranch ∈ applyUpdates (refUpdates (accepted p.statuses)) before) ∧
      Coexist (applyUpdates (refUpdates (accepted p.statuses)) before)

/-- An import names its refs and its default branch in UTF-8. -/
def ImportsUtf8 (link : Link git) : Prop :=
  ∀ body, link.job = .importRefs body → ∃ (source : Source git) (branch : RefName) (made : Repack),
    importBody source branch made = .ok body ∧ Utf8.Valid branch ∧
      ∀ name ∈ source.refs, Utf8.Valid name

theorem presentable_empty {branch : RefName} (valid : validRefName branch = true)
    (accepted : git.checkRefFormat branch = true) : Presentable git branch ∅ := by
  refine ⟨fun name oid found => ?_, fun parent above => ?_, valid, accepted, .inl rfl⟩
  · simp at found
  · exact absurd above notMem_empty

variable {refs : RefMap} {name : RefName} {oid : OID} {plan : Plan} {p : Push git} {link : Link git}
  {body : Body} {before : RefMap}

theorem lookup_applyUpdates {updates : Updates}
    (found : (applyUpdates updates refs).lookup name = some oid) :
    ((name, oid) ∈ updates ∧ deletes oid = false) ∨ refs.lookup name = some oid := by
  induction updates generalizing refs with
  | nil => exact .inr found
  | cons update rest ih =>
    rcases ih found with ⟨later, kept⟩ | before
    · exact .inl ⟨mem_cons_of_mem _ later, kept⟩
    · rw [lookup_applyUpdate] at before
      by_cases same : name = update.1
      · rw [if_pos same] at before
        split at before
        · cases before
        · next kept =>
            cases before
            exact .inl ⟨by rw [same]; exact mem_cons_self, by simpa using kept⟩
      · rw [if_neg same] at before
        exact .inr before

theorem Planned.names (planned : Planned h σ plan) :
    ∀ update ∈ plan.updates, validFullRefName update.1 = true := by
  obtain ⟨_, _, _, _, _, -, -, prepared, -⟩ := planned.prepared
  exact prepared.names

theorem Checked.wellFormed (checked : Checked h σ p) (planned : Planned h σ plan)
    (updates : plan.updates = refUpdates (accepted p.statuses))
    (member : (name, oid) ∈ refUpdates (accepted p.statuses)) (kept : deletes oid = false) :
    WellFormed git name oid := by
  have full := planned.names (name, oid) (updates ▸ member)
  obtain ⟨u, committed, same⟩ := mem_map.mp member
  cases same
  obtain ⟨accepted, -, hex, -⟩ := p.request.wellFormed u (checked.mem_updates committed)
  have occupied : u.newOID ≠ nullOID := by
    intro null
    rw [(deletes_iff hex).mpr null] at kept
    cases kept
  exact ⟨validRefName_of_full full, by simp [validOID, hex, occupied], accepted⟩

theorem Global.branch_kept (global : Global h σ) (member : link ∈ σ.links)
    (other : ∀ body, link.job ≠ .importRefs body) :
    link.next.body.defaultBranch = link.prev.body.defaultBranch := by
  have linked := global.linked link member
  have sound := global.sound (global.chained.prev_mem member)
  obtain ⟨trailer, built⟩ := linked.body_built
  have ok := linked.job
  have based := linked.based
  generalize link.job = job at built ok based other
  cases job with
  | push p plan =>
    have same : plan.base = link.prev := based plan.base rfl
    obtain ⟨_, _, _, _, _, -, -, prepared, -⟩ := ok.2.1.prepared
    rw [built.2]
    rcases prepared.body with ⟨-, -, marshalled⟩ | ⟨-, -, -, marshalled⟩ <;>
      rw [(marshalBody_ok marshalled).2.2] <;> exact same ▸ sound.branch
  | importRefs body => exact absurd rfl (other body)
  | repack m0 input | backfill m0 => exact (sound.stable built rfl rfl).2
  | compact m0 input => exact (sound.stable built.2 rfl rfl).2
  | bundle fresh =>
    obtain ⟨bundles, -, marshalled⟩ := built
    exact (sound.stable marshalled rfl rfl).2
  | reshard start =>
    obtain rfl := based start rfl
    rw [(marshalBody_ok built.2).2.2]
    exact sound.branch

theorem ImportsUtf8.presentable (imports : ImportsUtf8 link) (job : link.job = .importRefs body) :
    Presentable git body.defaultBranch body.refs := by
  obtain ⟨source, branch, made, built, utf8, names⟩ := imports body job
  have checks := importBody_ok built
  have sameBranch : body.defaultBranch = branch := checks.branch.trans utf8
  have sameRefs : body.refs = source.refs := checks.refs.trans (decodeRefs_encodeRefs names)
  rw [sameBranch, sameRefs]
  refine ⟨fun name oid found => ?_, source.coexist, validRefName_of_full checks.full,
    checks.accepted, checks.present⟩
  obtain ⟨valid, accepted⟩ := source.named name (mem_of_lookup_eq_some found)
  exact ⟨valid, source.objectIDs name oid found, accepted⟩

theorem Global.branch_valid (global : Global h σ)
    (origin : validRefName σ.origin.body.defaultBranch = true)
    (imports : ∀ link ∈ σ.links, ImportsUtf8 link) :
    ∀ root ∈ σ.history, validRefName root.body.defaultBranch = true := by
  refine global.chained.invariant
    (P := fun root => validRefName root.body.defaultBranch = true) origin ?_
  intro link member valid
  by_cases imported : ∃ body, link.job = .importRefs body
  · obtain ⟨body, job⟩ := imported
    obtain ⟨trailer, built⟩ := (global.linked link member).body_built
    rw [job] at built
    rw [built.2]
    exact ((imports link member).presentable job).valid
  · rw [global.branch_kept member fun body job => imported ⟨body, job⟩]
    exact valid

theorem Lists.inline_refs (lists : Lists h σ body refs) (sound : Sound h σ body) :
    body.refs = refs ∨ body.refs = ∅ := by
  rcases validateBody_ok sound.valid with ⟨inline, -⟩ | ⟨-, empty, -⟩
  · exact .inl ((sound.lists_inline inline).unique lists)
  · exact .inr empty

/-- A push over presentable refs leaves presentable refs exactly if it keeps the default
branch and makes no directory conflict. -/
theorem Global.push_presentable_iff (global : Global h σ) (member : link ∈ σ.links)
    (job : link.job = .push p plan)
    (presentable : Presentable git link.prev.body.defaultBranch before) :
    Presentable git link.prev.body.defaultBranch
        (applyUpdates (refUpdates (accepted p.statuses)) before) ↔
      (applyUpdates (refUpdates (accepted p.statuses)) before = ∅ ∨
        link.prev.body.defaultBranch ∈ applyUpdates (refUpdates (accepted p.statuses)) before) ∧
      Coexist (applyUpdates (refUpdates (accepted p.statuses)) before) := by
  have ok := (global.linked link member).job
  rw [job] at ok
  obtain ⟨checked, planned, updates, -⟩ := ok
  constructor
  · intro after
    exact ⟨after.present, after.coexist⟩
  · rintro ⟨present, coexist⟩
    refine ⟨fun name oid found => ?_, coexist, presentable.valid, presentable.accepted, present⟩
    rcases lookup_applyUpdates found with ⟨inside, kept⟩ | old
    · exact checked.wellFormed planned updates inside kept
    · exact presentable.wellFormed name oid old

theorem Global.presentable_step (global : Global h σ) (empty : σ.origin.body.refShards = [])
    (valid : ∀ link ∈ σ.links, NamesValid link) (member : link ∈ σ.links)
    (lists : Lists h σ link.prev.body before)
    (presentable : Presentable git link.prev.body.defaultBranch before) (imports : ImportsUtf8 link) :
    ∃ after, Lists h σ link.next.body after ∧
      (Presentable git link.next.body.defaultBranch after ↔ LeavesPresentable h σ link) := by
  obtain ⟨after, listed, follows⟩ := global.follows member lists (valid link member).fit
  have sound := global.sound (global.chained.prev_mem member)
  have kept := global.branch_kept member
  have inline : Presentable git link.prev.body.defaultBranch link.prev.body.refs := by
    rcases lists.inline_refs sound with same | none
    · rw [same]
      exact presentable
    · rw [none]
      exact presentable_empty presentable.valid presentable.accepted
  have quiet (other : ∀ p plan, link.job ≠ .push p plan)
      (fine : Presentable git link.next.body.defaultBranch after) :
      ∃ after, Lists h σ link.next.body after ∧
        (Presentable git link.next.body.defaultBranch after ↔ LeavesPresentable h σ link) :=
    ⟨after, listed, iff_of_true fine fun p plan job => absurd job (other p plan)⟩
  cases job : link.job with
  | push p plan =>
    rw [kept (by simp [job])]
    obtain ⟨earlier, again, next⟩ := global.push_refs empty valid member job
    cases lists.unique again
    refine ⟨_, next, (global.push_presentable_iff member job presentable).trans ⟨?_, ?_⟩⟩
    · intro leaves p' plan' same seen found
      cases job.symm.trans same
      cases Except.ok.inj (lists.listed.symm.trans found)
      exact leaves
    · intro leaves
      exact leaves p plan job before lists.listed
  | importRefs body =>
    obtain ⟨trailer, built⟩ := (global.linked link member).body_built
    rw [job] at built follows
    refine quiet (by simp [job]) ?_
    rw [built.2, show after = body.refs from follows]
    exact imports.presentable job
  | repack m0 input | compact m0 input =>
    rw [job] at follows
    refine quiet (by simp [job]) ?_
    rw [kept (by simp [job]), show after = link.prev.body.refs from follows]
    exact inline
  | bundle fresh | backfill m0 | reshard start =>
    rw [job] at follows
    refine quiet (by simp [job]) ?_
    rw [kept (by simp [job]), show after = before from follows]
    exact presentable

theorem Global.served_iff (global : Global h σ) (tools : Tools git)
    (closed : ∀ root ∈ σ.history, Closed h σ root.body)
    (named : ∀ root ∈ σ.history, validRefName root.body.defaultBranch = true) {root : Root}
    (member : root ∈ σ.history) (lists : Lists h σ root.body refs) :
    Served h tools σ.packs σ.objects root ↔ Presentable git root.body.defaultBranch refs := by
  have sound := global.sound member
  obtain ⟨seen, listed, packed⟩ := closed root member
  cases Except.ok.inj (lists.listed.symm.trans listed)
  have occupied : root.body.defaultBranch ≠ [] := by
    intro blank
    have valid := named root member
    rw [blank] at valid
    cases valid
  exact Exporter.served_iff sound.valid lists.listed
    (fun pack inside => ⟨(sound.packs pack inside).hex, (sound.packs pack inside).held⟩)
    packed occupied

/-- In every run from a default branch git accepts, in which repacks cover the refs of the
roots they replace and names are in UTF-8, all committed roots are served exactly if every
push leaves the default branch (or no ref) and makes no directory conflict. -/
theorem committed_roots_served_iff (tools : Tools git) (defaultBranch : RefName) (version : Nat)
    (utf8 : Utf8.Valid defaultBranch) (wellFormed : validRefName defaultBranch = true)
    (taken : git.checkRefFormat defaultBranch = true)
    (events : List (Event (System git) (ThreadId × Label))) (s : System git)
    (run : Run (Step h) (start defaultBranch version) events s)
    (covers : ∀ link ∈ s.shared.links, RepackCovers link)
    (valid : ∀ link ∈ s.shared.links, NamesValid link)
    (imports : ∀ link ∈ s.shared.links, ImportsUtf8 link) :
    (∀ root ∈ s.shared.history, Served h tools s.shared.packs s.shared.objects root) ↔
      ∀ link ∈ s.shared.links, LeavesPresentable h s.shared link := by
  have global := (run_safe utf8 run).global
  have origin := run_origin run
  have empty : s.shared.origin.body.refShards = [] := by rw [origin]; rfl
  have fresh : s.shared.origin.body.refs = ∅ := by rw [origin]; rfl
  have branch : s.shared.origin.body.defaultBranch = defaultBranch := by rw [origin]; rfl
  have fit := fun link member => (valid link member).fit
  have named := global.branch_valid (branch ▸ wellFormed) imports
  have closed := global.closed empty fresh covers fit
  constructor
  · intro served link member
    have before := global.chained.prev_mem member
    have after : link.next ∈ s.shared.history := Chain.mem_values.mpr (.inr ⟨link, member, rfl⟩)
    obtain ⟨refs, lists⟩ := global.lists empty fit before
    have presentable := (global.served_iff tools closed named before lists).mp (served _ before)
    obtain ⟨left, listed, leaves⟩ :=
      global.presentable_step empty valid member lists presentable (imports link member)
    exact leaves.mp ((global.served_iff tools closed named after listed).mp (served _ after))
  · intro leaves root member
    have presentable : ∀ root ∈ s.shared.history, ∃ refs, Lists h s.shared root.body refs ∧
        Presentable git root.body.defaultBranch refs := by
      refine global.chained.invariant (P := fun root => ∃ refs, Lists h s.shared root.body refs ∧
        Presentable git root.body.defaultBranch refs) ?_ ?_
      · refine ⟨_, global.origin.lists_inline empty, ?_⟩
        rw [fresh, branch]
        exact presentable_empty wellFormed taken
      · rintro link member ⟨before, lists, presentable⟩
        obtain ⟨after, listed, step⟩ :=
          global.presentable_step empty valid member lists presentable (imports link member)
        exact ⟨after, listed, step.mpr (leaves link member)⟩
    obtain ⟨refs, lists, fine⟩ := presentable root member
    exact (global.served_iff tools closed named member lists).mpr fine

/-! A first push to a branch that is not the default one. -/

def sampleTools : Tools sampleGit where
  order := Dict.entries
  visits := fun _ => List.Perm.refl _
  initialHead := mainRef
  fsck := fun _ => true
  complete := fun _ _ => rfl

def bornBranch : UpdateCommand := ⟨otherRef, nullOID, objectOne⟩

def bornRequest : ReceivePack.Request sampleGit.checkRefFormat :=
  singleRequest bornBranch (by decide) (by decide) (by decide) (by decide)

def bornRefs : RefMap := Dict.insertAll [(otherRef, objectOne)] ∅

theorem packsAll_born : PacksAll sampleGit bornRefs packOne :=
  packsAll_ofEntries (by decide) rfl (by decide)

def bornPush : Push sampleGit :=
  ⟨bornRequest, (created mainRef 1 : World sampleGit).root, [(bornBranch, .pending)]⟩

def bornPlan : Plan :=
  inlinePlan (created mainRef 1 : World sampleGit).root [(otherRef, objectOne)] packOne

def bornWorld : World sampleGit :=
  ((created mainRef 1).putPack (packEntry (sampleRepack packOne))).commit 1
    (.push bornPush bornPlan) 2 bornPlan.body

theorem reached_born : ∃ threads, Reached spelledHashing (start mainRef 1) ⟨bornWorld, threads⟩ ∧
    threads 1 = .reported bornPush (.reread (some bornWorld.root)) [(bornBranch, .ok)] := by
  have begun : Reached spelledHashing (start mainRef 1 : System sampleGit) (start mainRef 1) :=
    Interleave.reached_start _
  have checked := begun.accept 1 rfl bornRequest
    (show _ = Sum.inr [(bornBranch, Status.pending)] by decide)
  have building := checked.build
    (show prepare spelledHashing sampleGit _ _ (bareOf bornRefs) _ (sampleRepack packOne) ⟨none, ""⟩ =
      Except.ok bornPlan by decide)
    packsAll_born rfl
  have landed := building.commit (fun _ => none) 2 .applied
    (show _ = Except.ok bornPlan.body from rfl) rfl (by decide)
  exact ⟨_, landed.again (.report true) trivial, rfl⟩

/-- The push is reported as accepted, and the root it leaves cannot be exported. -/
theorem accepted_push_not_served :
    ∃ events s, Run (Step spelledHashing) (start mainRef 1 : System sampleGit) events s ∧
      (∃ t p course, s.threads t = .reported p course [(bornBranch, .ok)]) ∧
      exportRepository spelledHashing sampleTools s.shared.packs s.shared.objects s.shared.root
        false = .error (.missingDefaultBranch mainRef) ∧
      ¬ Served spelledHashing sampleTools s.shared.packs s.shared.objects s.shared.root := by
  obtain ⟨threads, ⟨events, run, -⟩, reported⟩ := reached_born
  have refused : exportRepository spelledHashing sampleTools bornWorld.packs bornWorld.objects
      bornWorld.root false = .error (.missingDefaultBranch mainRef) := rfl
  refine ⟨events, _, run, ⟨1, _, _, reported⟩, refused, ?_⟩
  rintro ⟨result, exported, -⟩
  cases exported.symm.trans refused

theorem dropped_covers : ∀ link ∈ droppedWorld.links, RepackCovers link := by
  intro link member m0 input job
  rcases mem_cons.mp member with rfl | older
  · cases job
  · cases List.mem_singleton.mp older
    cases job

theorem dropped_imports : ∀ link ∈ droppedWorld.links, ImportsUtf8 link := by
  intro link member body job
  rcases mem_cons.mp member with rfl | older
  · cases job
  · cases List.mem_singleton.mp older
    cases job
    refine ⟨sampleSource, mainRef, sampleRepack packBoth, rfl, by decide, ?_⟩
    intro name inside
    rcases mem_bothRefs.mp inside with rfl | rfl <;> decide

theorem dropped_leaves : ∀ link ∈ droppedWorld.links,
    LeavesPresentable spelledHashing droppedWorld link := by
  intro link member p plan job before listed
  rcases mem_cons.mp member with rfl | older
  · cases job
    have imported : RefStore.list spelledHashing droppedWorld.objects importedWorld.root.body =
        .ok bothRefs := by decide
    cases Except.ok.inj (imported.symm.trans listed)
    have only : ∀ name ∈ oneRef, name = mainRef := by
      simp [oneRef, Dict.mem_insertAll, notMem_empty]
    refine ⟨.inr (by decide), fun parent above child below => ?_⟩
    rw [only parent above, only child below]
    decide
  · cases List.mem_singleton.mp older
    cases job

theorem committed_roots_served_sample :
    ∃ events s, Run (Step spelledHashing) (start mainRef 1 : System sampleGit) events s ∧
      s.shared.root.manifestVersion = 3 ∧
      ∀ root ∈ s.shared.history,
        Served spelledHashing sampleTools s.shared.packs s.shared.objects root := by
  obtain ⟨threads, ⟨events, run, -⟩, -, -⟩ := reached_dropped
  have names : ∀ link ∈ droppedWorld.links, NamesValid link :=
    fun link member => moved_names link (mem_cons_of_mem _ member)
  refine ⟨events, _, run, rfl, ?_⟩
  exact (committed_roots_served_iff sampleTools mainRef 1 (by decide) (by decide) (by decide)
    events _ run dropped_covers names dropped_imports).mpr dropped_leaves

end BucketVcs.Writers
