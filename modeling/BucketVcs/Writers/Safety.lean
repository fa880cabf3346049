import BucketVcs.Writers

/-! The invariant of the machine: the history of the bucket, and what every writer knows
at each of its phases. -/

namespace BucketVcs.Writers

open Manifest RefStore Importer ReceivePack Maintenance Transition List Option World

variable {git : Git} {h : Hashing} {σ σ' : World git} {t : ThreadId}

def Silent (t : ThreadId) (σ : World git) : Prop := ∀ link ∈ σ.links, link.thread ≠ t

def CommitsOnly (t : ThreadId) (σ : World git) (p : Push git) : Prop :=
  ∀ link ∈ σ.links, link.thread = t → ∃ plan, link.job = .push p plan

def Owns (t : ThreadId) (σ : World git) : Job git → Prop
  | .push p _ => CommitsOnly t σ p
  | _ => True

def Accounted (h : Hashing) (t : ThreadId) (σ : World git) (p : Push git) (report : Statuses) :
    Course → Prop
  | .turnedDown => Silent t σ ∧ ∀ line ∈ report, line.2 ≠ .ok
  | .commitFailed => Checked h σ p ∧ CommitsOnly t σ p ∧
      ∃ reason, report = settle (.ng reason) p.statuses
  | .reread seen => Checked h σ p ∧ CommitsOnly t σ p ∧
      report = settle (verdict p.first seen) p.statuses ∧
      (∀ root, seen = some root → root ∈ σ.history) ∧
      ∃ link ∈ σ.links, link.thread = t

def Pending (σ : World git) (writes pending : List ShardWrite) : Prop :=
  (∀ w ∈ pending, w ∈ writes) ∧
    ∀ w ∈ writes, w ∈ pending ∨ σ.objects w.key = some w.contents

def Local (h : Hashing) (t : ThreadId) (σ : World git) : Phase git → Prop
  | .idle => Silent t σ
  | .checked p => Silent t σ ∧ Checked h σ p
  | .accepted p => Silent t σ ∧ Checked h σ p
  | .prepared p plan => Silent t σ ∧ Checked h σ p ∧ Planned h σ plan ∧
      plan.updates = refUpdates (accepted p.statuses)
  | .importing pack body => Imported git body ∧ (∀ entry, pack = some entry → entry ∈ body.packs) ∧
      ∀ entry ∈ body.packs, pack = some entry ∨ PackStored σ entry
  | .snapshot m0 => Snapshot σ m0
  | .repacked m0 input => Snapshot σ m0 ∧ RepackOf git m0 input
  | .resharding start pending => start ∈ σ.history ∧ start.body.refShards = [] ∧
      start.body.refs ≠ ∅ ∧ Pending σ (RefStore.reshard h start.body.refs).1 pending
  | .ready job => JobOK h σ job ∧ Owns t σ job
  | .publishing job prev body pending => JobOK h σ job ∧ Owns t σ job ∧ prev ∈ σ.history ∧
      (∃ trailer, job.callback h trailer prev = .ok body) ∧ Pending σ job.writes pending
  | .landed job body => JobOK h σ job ∧ Owns t σ job ∧
      ∃ link ∈ σ.links, link.thread = t ∧ link.next.body = body
  | .reported p course report => Accounted h t σ p report course
  | .finished => True

structure Guarantee (t : ThreadId) (σ σ' : World git) : Prop where
  grows : Grows σ σ'
  others : ∀ link ∈ σ'.links, link.thread ≠ t → link ∈ σ.links

theorem Guarantee.refl (t : ThreadId) (σ : World git) : Guarantee t σ σ :=
  ⟨.refl σ, fun _ member _ => member⟩

/-! Stability. -/

variable {other : ThreadId} {p : Push git} {job : Job git} {writes : List ShardWrite}
  {link : Link git} {phase : Phase git} {write : ShardWrite} {body : Body}
  {trailer : Key → Option String} {version : Nat} {plan : Plan} {phase' : Phase git} {l : Label}
  {defaultBranch : RefName} {events : List (Event (System git) (ThreadId × Label))} {s : System git}

theorem Silent.stable (silent : Silent other σ) (guaranteed : Guarantee t σ σ')
    (different : other ≠ t) : Silent other σ' := by
  intro link member same
  have elsewhere : link.thread ≠ t := same ▸ different
  exact silent link (guaranteed.others link member elsewhere) same

theorem CommitsOnly.stable (commits : CommitsOnly other σ p) (guaranteed : Guarantee t σ σ')
    (different : other ≠ t) : CommitsOnly other σ' p := by
  intro link member same
  have elsewhere : link.thread ≠ t := same ▸ different
  exact commits link (guaranteed.others link member elsewhere) same

theorem Owns.stable (owns : Owns other σ job) (guaranteed : Guarantee t σ σ')
    (different : other ≠ t) : Owns other σ' job := by
  cases job with
  | push p plan => exact .stable owns guaranteed different
  | _ => trivial

theorem Pending.grows {pending : List ShardWrite} (outstanding : Pending σ writes pending)
    (grows : Grows σ σ') : Pending σ' writes pending :=
  ⟨outstanding.1, fun w member => (outstanding.2 w member).imp id (grows.objects _ _)⟩

theorem Grows.mem_links (grows : Grows σ σ') (member : link ∈ σ.links) : link ∈ σ'.links := by
  obtain ⟨newer, extended⟩ := grows.links
  rw [extended]
  exact mem_append_right _ member

theorem Accounted.stable {report : Statuses} {course : Course}
    (accounted : Accounted h other σ p report course) (guaranteed : Guarantee t σ σ')
    (different : other ≠ t) : Accounted h other σ' p report course := by
  have grows := guaranteed.grows
  cases course with
  | turnedDown => exact ⟨accounted.1.stable guaranteed different, accounted.2⟩
  | commitFailed =>
    obtain ⟨checked, commits, reason⟩ := accounted
    exact ⟨checked.grows grows, commits.stable guaranteed different, reason⟩
  | reread seen =>
    obtain ⟨checked, commits, settled, known, link, member, own⟩ := accounted
    exact ⟨checked.grows grows, commits.stable guaranteed different, settled,
      fun root same => grows.history (known root same), link, grows.mem_links member, own⟩

theorem Local.stable (known : Local h other σ phase) (guaranteed : Guarantee t σ σ')
    (different : other ≠ t) : Local h other σ' phase := by
  have grows := guaranteed.grows
  cases phase with
  | idle => exact .stable known guaranteed different
  | checked p | accepted p => exact ⟨known.1.stable guaranteed different, known.2.grows grows⟩
  | prepared p plan =>
    obtain ⟨silent, checked, planned, updates⟩ := known
    exact ⟨silent.stable guaranteed different, checked.grows grows, planned.grows grows, updates⟩
  | importing pack body =>
    exact ⟨known.1, known.2.1,
      fun entry member => (known.2.2 entry member).imp id (·.grows grows)⟩
  | snapshot m0 => exact .grows known grows
  | repacked m0 input => exact ⟨known.1.grows grows, known.2⟩
  | resharding start pending =>
    obtain ⟨member, inline, refs, outstanding⟩ := known
    exact ⟨grows.history member, inline, refs, outstanding.grows grows⟩
  | ready job => exact ⟨known.1.grows grows, known.2.stable guaranteed different⟩
  | publishing job prev body pending =>
    obtain ⟨ok, owns, member, built, outstanding⟩ := known
    exact ⟨ok.grows grows, owns.stable guaranteed different, grows.history member, built,
      outstanding.grows grows⟩
  | landed job body =>
    obtain ⟨ok, owns, link, member, own⟩ := known
    exact ⟨ok.grows grows, owns.stable guaranteed different, link, grows.mem_links member, own⟩
  | reported p course report => exact .stable known guaranteed different
  | finished => trivial

/-! Puts into the bucket. -/

theorem Global.extend (global : Global h σ) (grows : Grows σ σ') (root : σ'.root = σ.root)
    (links : σ'.links = σ.links) (addressed : Addressed h σ'.objects)
    (packs : ∀ key id, σ'.packs key = some id → key = canonicalPackKey id) : Global h σ' := by
  have history : σ'.history = σ.history := by simp [history, links, grows.origin]
  refine ⟨addressed, ?_, ?_, ?_, ?_, packs⟩
  · rw [grows.origin, links, root]
    exact global.chained
  · intro link member
    rw [links] at member
    exact (global.linked link member).grows grows
  · rw [history]
    exact global.distinct
  · rw [grows.origin]
    exact global.origin.grows grows

theorem putPack_grows (σ : World git) (pack : PackEntry) : Grows σ (σ.putPack pack) := by
  unfold putPack
  split
  · exact .refl σ
  · next absent =>
      refine ⟨.refl _, ?_, rfl, [], rfl⟩
      intro key id held
      have different : key ≠ pack.packKey := by
        rintro rfl
        simp [held] at absent
      simpa [different] using held

theorem putPack_keeps (σ : World git) (pack : PackEntry) :
    (σ.putPack pack).root = σ.root ∧ (σ.putPack pack).links = σ.links ∧
      (σ.putPack pack).objects = σ.objects := by
  unfold putPack
  split <;> exact ⟨rfl, rfl, rfl⟩

theorem Global.putPack (global : Global h σ) {pack : PackEntry}
    (keyed : pack.packKey = canonicalPackKey pack.packID) : Global h (σ.putPack pack) := by
  obtain ⟨root, links, objects⟩ := putPack_keeps σ pack
  refine global.extend (putPack_grows σ pack) root links (objects ▸ global.addressed) ?_
  unfold World.putPack
  split
  · exact global.packs
  · intro key id held
    by_cases same : key = pack.packKey
    · subst same
      simp only [Function.update_self, some.injEq] at held
      exact held ▸ keyed
    · exact global.packs key id (by simpa [same] using held)

theorem Global.packStored (global : Global h σ) {pack : PackEntry}
    (keyed : pack.packKey = canonicalPackKey pack.packID)
    (hex : RefNames.validOID pack.packID = true) : PackStored (σ.putPack pack) pack := by
  refine ⟨keyed, ?_, hex⟩
  unfold World.putPack
  split
  · next present =>
      -- the id under the key is the one the key spells
      obtain ⟨id, held⟩ := isSome_iff_exists.mp present
      have same := canonicalPackKey_injective ((global.packs _ _ held).symm.trans keyed)
      exact same ▸ held
  · simp

theorem Global.putShard (global : Global h σ) (wellFormed : write.WellFormed h) :
    Global h (σ.putShard write) ∧ Grows σ (σ.putShard write) ∧
      (σ.putShard write).objects write.key = some write.contents := by
  have single : ∀ w ∈ [write], w.WellFormed h := by simpa using wellFormed
  obtain ⟨addressed, grows, held⟩ := putShards_spec global.addressed single
  have extended : Grows σ (σ.putShard write) := ⟨grows, fun _ _ held => held, rfl, [], rfl⟩
  exact ⟨global.extend extended rfl rfl addressed global.packs, extended,
    held write mem_cons_self⟩

theorem Pending.put {rest : List ShardWrite} (outstanding : Pending σ writes (write :: rest))
    (grows : Grows σ σ') (held : σ'.objects write.key = some write.contents) :
    Pending σ' writes rest := by
  refine ⟨fun w member => outstanding.1 w (mem_cons_of_mem _ member), ?_⟩
  intro w member
  rcases outstanding.2 w member with later | stored
  · rcases mem_cons.mp later with rfl | inside
    · exact .inr held
    · exact .inl inside
  · exact .inr (grows.objects _ _ stored)

theorem JobOK.wellFormed (ok : JobOK h σ job) : ∀ w ∈ job.writes, w.WellFormed h := by
  cases job with
  | push p plan =>
    obtain ⟨-, planned, -, -⟩ := ok
    obtain ⟨objects, _, made, patch, stage, -, resolves, prepared, -⟩ := planned.prepared
    rcases stage_ok prepared.staged with ⟨-, rfl⟩ | ⟨-, writes, next, rfl, sharded⟩
    · simp [Job.writes, prepared.writes, stageWrites]
    · rw [show (Job.push p plan).writes = writes from prepared.writes]
      exact (stageSharded_staged resolves sharded).wellFormed
  | _ => simp [Job.writes]

/-! The conditional put of the root. -/

theorem Global.based (global : Global h σ) {prev : Root} (ok : JobOK h σ job)
    (member : prev ∈ σ.history) (returned : job.callback h trailer prev = .ok body) :
    ∀ root, job.base = some root → root = prev := by
  intro root same
  have built := callback_ok returned
  cases job with
  | push p plan =>
    cases same
    exact global.version_injective ok.2.1.base member built.1.symm
  | reshard start =>
    cases same
    exact global.version_injective ok.1 member built.1.symm
  | _ => cases same

theorem replaceRoot_grows (σ : World git) (link : Link git) : Grows σ (σ.replaceRoot link) :=
  ⟨.refl _, fun _ _ held => held, rfl, [link], rfl⟩

theorem Global.land (global : Global h σ) (ok : JobOK h σ job)
    (built : job.callback h trailer σ.root = .ok body)
    (stored : ∀ w ∈ job.writes, σ.objects w.key = some w.contents)
    (unused : ∀ r ∈ σ.history, r.version ≠ version) :
    Global h (σ.replaceRoot ⟨t, job, σ.root, ⟨σ.root.manifestVersion + 1, version, body⟩⟩) := by
  have grows := replaceRoot_grows σ
    ⟨t, job, σ.root, ⟨σ.root.manifestVersion + 1, version, body⟩⟩
  have current : σ.root ∈ σ.history := global.chained.current_mem
  refine ⟨global.addressed, ⟨rfl, global.chained⟩, ?_, ?_, global.origin.grows grows, global.packs⟩
  · intro link member
    rcases mem_cons.mp member with rfl | older
    · exact ⟨ok.grows grows, ⟨trailer, built⟩, stored, rfl, global.based ok current built⟩
    · exact (global.linked link older).grows grows
  · intro left leftMember right rightMember same
    rcases mem_cons.mp leftMember with rfl | leftOlder <;>
      rcases mem_cons.mp rightMember with rfl | rightOlder
    · rfl
    · exact absurd same.symm (unused right rightOlder)
    · exact absurd same (unused left leftOlder)
    · exact global.distinct left leftOlder right rightOlder same

/-! What each step establishes for its own thread. -/

theorem Global.checked (global : Global h σ) {request : Request git.checkRefFormat}
    {statuses : Statuses}
    (through : gate request.isAtomic
      (precheckUpdates (list h σ.objects σ.root.body) request.updates) = .inr statuses) :
    Checked h σ ⟨request, σ.root, statuses⟩ := by
  have current : σ.root ∈ σ.history := global.chained.current_mem
  have sound := global.sound current
  obtain ⟨refs, listed⟩ := list_of_resolves sound.valid sound.resolves
  obtain rfl := gate_inr through
  refine ⟨current, sound.resolves, precheckUpdates_commands _ _, precheckUpdates_undecided _ _,
    refs, listed, ?_⟩
  intro u member
  rw [listed] at member
  exact accepted_precheckUpdates member

theorem Checked.screened {screened : Statuses} (checked : Checked h σ p)
    (screens : Screens p.statuses screened) : Checked h σ { p with statuses := screened } := by
  obtain ⟨refs, listed, matched⟩ := checked.matched
  exact ⟨checked.first, checked.resolves, screens.commands.trans checked.commands,
    screens.undecided checked.undecided, refs, listed,
    fun u member => matched u (screens.accepted member)⟩

theorem Silent.commitsOnly (silent : Silent t σ) : CommitsOnly t σ p :=
  fun link member same => absurd same (silent link member)

theorem Global.planned (global : Global h σ) {bare : Bare} {updates : Updates} {made : Repack}
    {patch : Patch} (built : prepare h git σ.objects σ.root bare updates made patch = .ok plan)
    (packed : plan.pack.isSome → PacksAll git bare.refs made.packID) :
    Planned h σ plan ∧ plan.updates = updates := by
  have current : σ.root ∈ σ.history := global.chained.current_mem
  obtain ⟨base, same, stage, prepared⟩ := prepare_ok built
  refine ⟨⟨base ▸ current, σ.objects, bare.refs, made, patch, stage, .refl _, ?_, prepared,
    packed⟩, same⟩
  rw [base]
  exact (global.sound current).resolves

theorem Planned.pack (planned : Planned h σ plan) {pack : PackEntry}
    (packed : plan.pack = some pack) :
    pack.packKey = canonicalPackKey pack.packID ∧ RefNames.validOID pack.packID = true := by
  obtain ⟨_, _, made, patch, stage, -, -, prepared, packs⟩ := planned.prepared
  rcases prepared.body with ⟨-, none, -⟩ | ⟨-, some, -, -⟩
  · rw [none] at packed
    cases packed
  · rw [some] at packed
    cases packed
    exact ⟨rfl, (packs (by simp [some])).hex⟩

theorem Imported.pack (imported : Imported git body) {pack : PackEntry} (member : pack ∈ body.packs) :
    body.packs = [pack] ∧ pack.packKey = canonicalPackKey pack.packID ∧
      RefNames.validOID pack.packID = true := by
  obtain ⟨source, defaultBranch, made, built, packed⟩ := imported
  obtain ⟨-, -, rfl⟩ := marshalBody_ok (importBody_ok built).marshalled
  by_cases empty : source.refs = ∅
  · simp [sourceBody, empty] at member
  · have only : (sourceBody source.refs defaultBranch made).packs = [packEntry made] := by
      simp [sourceBody, empty]
    simp only [only, List.mem_singleton] at member ⊢
    subst member
    exact ⟨rfl, rfl, (packed empty).hex⟩

theorem JobOK.failed (ok : JobOK h σ job) (owns : Owns t σ job) (reason : String) :
    Local h t σ (job.failed reason) := by
  cases job with
  | push p plan => exact ⟨ok.1, owns, reason, rfl⟩
  | backfill m0 => exact ok
  | _ => trivial

theorem Owns.kept (owns : Owns t σ job) (links : σ'.links = σ.links) : Owns t σ' job := by
  cases job with
  | push p plan =>
    intro link member
    exact owns link (links ▸ member)
  | _ => trivial

theorem Owns.landed (owns : Owns t σ job) (root next : Root) :
    Owns t (σ.replaceRoot ⟨t, job, root, next⟩) job := by
  cases job with
  | push p plan =>
    intro link member same
    rcases mem_cons.mp member with rfl | older
    · exact ⟨plan, rfl⟩
    · exact owns link older same
  | _ => trivial

theorem mem_history (member : link ∈ σ.links) : link.next ∈ σ.history :=
  Chain.mem_values.mpr (.inr ⟨link, member, rfl⟩)

theorem local_done (other : ∀ p plan, job ≠ .push p plan) (snapshot : Snapshot σ body) :
    Local h t σ (job.done body) := by
  cases job with
  | push p plan => exact absurd rfl (other p plan)
  | backfill m0 => exact snapshot
  | _ => trivial

/-- One step keeps the invariant of the bucket and the mover's own, and only adds. -/
theorem move_safe (global : Global h σ) (known : Local h t σ phase)
    (moved : Move h t σ phase l σ' phase') :
    Global h σ' ∧ Local h t σ' phase' ∧ Guarantee t σ σ' := by
  have unchanged := Guarantee.refl t σ
  have current : σ.root ∈ σ.history := global.chained.current_mem
  cases moved with
  | stop => exact ⟨global, trivial, unchanged⟩
  | receive request through => exact ⟨global, ⟨known, global.checked through⟩, unchanged⟩
  | turnDown request refused =>
    exact ⟨global, ⟨known, gate_inl refused (precheckUpdates_undecided _ _)⟩, unchanged⟩
  | screen screens through =>
    obtain rfl := gate_inr through
    exact ⟨global, ⟨known.1, known.2.screened screens⟩, unchanged⟩
  | screenOut screens refused =>
    have undecided := screens.undecided known.2.undecided
    exact ⟨global, ⟨known.1, gate_inl refused undecided⟩, unchanged⟩
  | mirrorFails => exact ⟨global, ⟨known.1, settle_ne_ok known.2.undecided⟩, unchanged⟩
  | prepare built packed =>
    obtain ⟨planned, updates⟩ := global.planned built packed
    exact ⟨global, ⟨known.1, known.2, planned, updates⟩, unchanged⟩
  | prepareFails => exact ⟨global, ⟨known.2, known.1.commitsOnly, _, rfl⟩, unchanged⟩
  | @upload p plan pack packed =>
    obtain ⟨silent, checked, planned, updates⟩ := known
    obtain ⟨keyed, hex⟩ := planned.pack packed
    have grows := putPack_grows σ pack
    have links := (putPack_keeps σ pack).2.1
    refine ⟨global.putPack keyed, ⟨⟨checked.grows grows, planned.grows grows, updates, ?_⟩, ?_⟩,
      grows, fun link member _ => links ▸ member⟩
    · intro entry same
      cases packed.symm.trans same
      exact global.packStored keyed hex
    · intro link member same
      exact absurd same (silent link (links ▸ member))
  | nothingToUpload packed =>
    obtain ⟨silent, checked, planned, updates⟩ := known
    refine ⟨global, ⟨⟨checked, planned, updates, ?_⟩, silent.commitsOnly⟩, unchanged⟩
    intro entry same
    cases packed.symm.trans same
  | uploadFails => exact ⟨global, ⟨known.2.1, known.1.commitsOnly, _, rfl⟩, unchanged⟩
  | @importSource source defaultBranch made body built packed =>
    have imported : Imported git body := ⟨source, defaultBranch, made, built, packed⟩
    refine ⟨global, ⟨imported, fun entry same => List.mem_of_head? same, ?_⟩, unchanged⟩
    intro entry member
    rw [(imported.pack member).1]
    exact .inl rfl
  | @importUpload pack body =>
    obtain ⟨imported, listed, -⟩ := known
    obtain ⟨only, keyed, hex⟩ := imported.pack (listed pack rfl)
    have links := (putPack_keeps σ pack).2.1
    refine ⟨global.putPack keyed, ⟨imported, by simp, ?_⟩, putPack_grows σ pack,
      fun link member _ => links ▸ member⟩
    intro entry member
    rw [only] at member
    cases List.mem_singleton.mp member
    exact .inr (global.packStored keyed hex)
  | importReady =>
    obtain ⟨imported, -, stored⟩ := known
    refine ⟨global, ⟨⟨imported, ?_⟩, trivial⟩, unchanged⟩
    intro entry member
    exact (stored entry member).resolve_left (by simp)
  | snapshot read =>
    obtain ⟨-, rfl⟩ := unmarshalBody_ok read
    exact ⟨global, ⟨σ.root, current, rfl⟩, unchanged⟩
  | backfill needed | compact refs packs consumed => exact ⟨global, ⟨known, trivial⟩, unchanged⟩
  | repack refs packs made => exact ⟨global, ⟨known, made⟩, unchanged⟩
  | @uploadRepack m0 input =>
    have grows := putPack_grows σ input.newPack
    have links := (putPack_keeps σ input.newPack).2.1
    obtain ⟨snapshot, made⟩ := known
    exact ⟨global.putPack made.keyed, ⟨⟨snapshot.grows grows, made,
      global.packStored made.keyed made.packed.hex⟩, trivial⟩, grows,
      fun link member _ => links ▸ member⟩
  | bundle fresh => exact ⟨global, ⟨trivial, trivial⟩, unchanged⟩
  | startReshard read inline refs =>
    obtain ⟨-, rfl⟩ := unmarshalBody_ok read
    exact ⟨global, ⟨current, inline, refs, fun w member => member, fun w member => .inl member⟩,
      unchanged⟩
  | @putReshard start write rest =>
    obtain ⟨member, inline, refs, outstanding⟩ := known
    have wellFormed := reshard_wellFormed _ write (outstanding.1 write mem_cons_self)
    obtain ⟨kept, grows, held⟩ := global.putShard wellFormed
    exact ⟨kept, ⟨grows.history member, inline, refs, outstanding.put grows held⟩, grows,
      fun link inside _ => inside⟩
  | reshardReady =>
    obtain ⟨member, inline, refs, outstanding⟩ := known
    refine ⟨global, ⟨⟨member, inline, refs, ?_⟩, trivial⟩, unchanged⟩
    intro write inside
    exact (outstanding.2 write inside).resolve_left not_mem_nil
  | call built =>
    exact ⟨global, ⟨known.1, known.2, current, ⟨_, built⟩, fun w member => member,
      fun w member => .inl member⟩, unchanged⟩
  | callFails refused | giveUp => exact ⟨global, known.1.failed known.2 _, unchanged⟩
  | @putShard job prev body write rest =>
    obtain ⟨ok, owns, member, built, outstanding⟩ := known
    have wellFormed := ok.wellFormed write (outstanding.1 write mem_cons_self)
    obtain ⟨kept, grows, held⟩ := global.putShard wellFormed
    have guaranteed : Guarantee t σ (σ.putShard write) := ⟨grows, fun link inside _ => inside⟩
    exact ⟨kept, ⟨ok.grows grows, owns.kept rfl, grows.history member, built,
      outstanding.put grows held⟩, guaranteed⟩
  | commitFails => exact ⟨global, known.1.failed known.2.1 _, unchanged⟩
  | @casTaken job prev body version reply same unused =>
    obtain ⟨ok, owns, member, ⟨trailer, built⟩, outstanding⟩ := known
    -- the version is current, so the callback saw the root that is replaced
    obtain rfl := global.distinct σ.root current prev member same
    have stored : ∀ w ∈ job.writes, σ.objects w.key = some w.contents := fun w inside =>
      (outstanding.2 w inside).resolve_left not_mem_nil
    have grows := replaceRoot_grows σ
      ⟨t, job, σ.root, ⟨σ.root.manifestVersion + 1, version, body⟩⟩
    have still := owns.landed σ.root ⟨σ.root.manifestVersion + 1, version, body⟩
    refine ⟨global.land ok built stored unused, ?_, grows, ?_⟩
    · cases reply with
      | applied => exact ⟨ok.grows grows, still, _, mem_cons_self, rfl, rfl⟩
      | mismatch => exact ⟨ok.grows grows, still⟩
      | failed text => exact (ok.grows grows).failed still _
    · intro link inside elsewhere
      rcases mem_cons.mp inside with rfl | older
      · exact absurd rfl elsewhere
      · exact older
  | casRefused stale => exact ⟨global, ⟨known.1, known.2.1⟩, unchanged⟩
  | @report p plan body readable =>
    obtain ⟨ok, owns, link, member, own, -⟩ := known
    refine ⟨global, ⟨ok.1, owns, rfl, ?_, link, member, own⟩, unchanged⟩
    intro root seen
    cases readable with
    | false => cases seen
    | true => exact some.inj seen ▸ current
  | done other =>
    obtain ⟨ok, -, link, member, -, same⟩ := known
    exact ⟨global, local_done other ⟨link.next, mem_history member, same⟩, unchanged⟩

theorem created_global (valid : Utf8.Valid defaultBranch) (version : Nat) :
    Global h (created defaultBranch version : World git) := by
  refine ⟨by simp [Addressed, created], rfl, by simp [created], ?_, ?_, by simp [created]⟩
  · intro left leftMember right rightMember _
    have leftOrigin := List.mem_singleton.mp leftMember
    have rightOrigin := List.mem_singleton.mp rightMember
    exact leftOrigin.trans rightOrigin.symm
  · exact ⟨rfl, fun name member => absurd member Finmap.notMem_empty, valid, resolves_nil _,
      by simp [created, createdBody]⟩

/-- Every run of the writers over a created repository keeps the invariant. -/
theorem run_safe (valid : Utf8.Valid defaultBranch)
    (run : Run (Step h) (start defaultBranch version) events s) :
    Interleave.Safe (Global h) (Local h) s := by
  refine Interleave.safe_of_rely_guarantee Guarantee ?_ ?_ ?_ run
    (show ∀ e ∈ events, (fun _ => True) e from fun _ _ => trivial)
  · exact ⟨created_global valid version, fun t link member => absurd member not_mem_nil⟩
  · intro s s' t l global known _ moved
    exact move_safe global known moved
  · intro t other before after here different _ guaranteed known
    exact known.stable guaranteed different

theorem putPack_origin (σ : World git) (pack : PackEntry) :
    (σ.putPack pack).origin = σ.origin := (putPack_grows σ pack).origin

theorem Move.origin (moved : Move h t σ phase l σ' phase') : σ'.origin = σ.origin := by
  cases moved <;> first | rfl | exact putPack_origin _ _

theorem putPack_links (σ : World git) (pack : PackEntry) : (σ.putPack pack).links = σ.links := by
  unfold putPack
  split <;> rfl

theorem Move.links (moved : Move h t σ phase l σ' phase') :
    ∃ newer, σ'.links = newer ++ σ.links := by
  cases moved with
  | casTaken => exact ⟨[_], rfl⟩
  | upload | importUpload | uploadRepack => exact ⟨[], putPack_links _ _⟩
  | _ => exact ⟨[], rfl⟩

theorem run_origin (run : Run (Step h) (start defaultBranch version) events s) :
    s.shared.origin = ⟨1, version, createdBody defaultBranch⟩ := by
  refine run.invariant (I := fun s => s.shared.origin = ⟨1, version, createdBody defaultBranch⟩)
    rfl ?_ (show ∀ e ∈ events, (fun _ => True) e from fun _ _ => trivial)
  rintro s ⟨t, l⟩ s' same - step
  exact step.moved.1.origin.trans same

end BucketVcs.Writers
