import BucketVcs.Repo.Tx

/-! What concurrent `Commit` calls leave in the store: the roots form one chain, every
link of which is a single successful call. -/

namespace BucketVcs.Repo

open Manifest Transition List Function Store

variable {V : Type}

def LatestTx (k : Kernel V) (root : RootObject V) (id : TxID) : Prop :=
  ∃ view, readView k.semver root = .ok view ∧ view.header.latestTx = id

def Chained (first : RootObject V) : List (Link V) → RootObject V → Prop
  | [], root => root = first
  | link :: older, root => root = link.next ∧ Chained first older link.prev

/-- A correct replacement of the root: the callback saw exactly the root that was
replaced, the new root is that root's header moved on by one over the callback's body,
and the transaction record named by it was in the store already. -/
structure Linked (k : Kernel V) (link : Link V) : Prop where
  read : readView k.semver link.prev = .ok link.view
  built : ∃ outcome, (k.request link.call).buildBody link.view outcome ∧
    outcome.result = .ok link.newBody
  wrote : ∃ now fields, link.newBody.decode = .ok fields ∧
    readView k.semver link.next =
      .ok ⟨nextHeader link.view.header link.txID now, fields, link.next.version⟩
  recorded : ∃ record, link.record = some record ∧
    record.lookup "tx_id" = some (.string link.txID) ∧
    record.lookup "base_manifest_version" =
      some (.number link.view.header.manifestVersion.toNat) ∧
    record.lookup "base_manifest_object_version" = some (.string link.prev.version.token)

/-- A store as `Create` leaves it: one root, readable, with its transaction record. -/
structure Fresh (k : Kernel V) (σ : Store V) : Prop where
  links : σ.links = []
  history : σ.history = [σ.root]
  owner : ∀ id, σ.owner id = none
  latest : ∃ view, readView k.semver σ.root = .ok view ∧
    (σ.txs view.header.latestTx).isSome = true

structure Sound (k : Kernel V) (first : RootObject V) (σ : Store V) : Prop where
  chained : Chained first σ.links σ.root
  history : σ.history = σ.links.map Link.next ++ [first]
  distinct : (σ.history.map RootObject.version).Nodup
  current : σ.root ∈ σ.history
  linked : ∀ link ∈ σ.links, Linked k link
  minted : ∀ id c, σ.owner id = some c → (σ.txs id).isSome = true
  latest : ∀ r ∈ σ.history, ∀ id, LatestTx k r id → (σ.txs id).isSome = true

def Silent (c : CallId) (σ : Store V) : Prop := ∀ link ∈ σ.links, link.call ≠ c

/-- An id that call `c` minted and that no root ever carried. -/
def Unlanded (k : Kernel V) (c : CallId) (σ : Store V) (id : TxID) : Prop :=
  σ.owner id = some c ∧ ∀ r ∈ σ.history, ¬ LatestTx k r id

/-- Call `c` contributed one link, and `id` is carried by its root and by no other. -/
def Sole (k : Kernel V) (c : CallId) (σ : Store V) (id : TxID) : Prop :=
  σ.owner id = some c ∧ ∃ link, σ.links.filter (fun l => l.call = c) = [link] ∧
    link.txID = id ∧ ∀ r ∈ σ.history, LatestTx k r id → r = link.next

def AtMostOne (c : CallId) (σ : Store V) : Prop :=
  (σ.links.filter fun l => l.call = c).length ≤ 1

def CommitError.orphans : CommitError → List TxID
  | .failed _ => []
  | .gaveUp _ orphans _ => orphans

def Snapshot (k : Kernel V) (σ : Store V) (view : RootView V) : Prop :=
  ∃ r ∈ σ.history, readView k.semver r = .ok view

def Produced (k : Kernel V) (c : CallId) (view : RootView V) (newBody : RawMessage V) : Prop :=
  ∃ outcome, (k.request c).buildBody view outcome ∧ outcome.result = .ok newBody

def Recorded (k : Kernel V) (c : CallId) (σ : Store V) (snap : RootView V) (txID : TxID) : Prop :=
  ∃ now record, σ.txs txID = some record ∧
    Tx.marshal (k.txHeader snap txID now) (k.request c).txBody = .ok record

/-- The local invariant of a call. With `strict`, conditional puts report truly and a call
that returns an error left no link; without it such a call may have left one. -/
def Local (k : Kernel V) (strict : Prop) (c : CallId) (σ : Store V) : Phase V → Prop
  | .idle => Silent c σ
  | .head _ orphans => Silent c σ ∧ ∀ id ∈ orphans, Unlanded k c σ id
  | .called _ orphans view =>
    Silent c σ ∧ (∀ id ∈ orphans, Unlanded k c σ id) ∧ Snapshot k σ view
  | .built _ orphans snap newBody =>
    Silent c σ ∧ (∀ id ∈ orphans, Unlanded k c σ id) ∧ Snapshot k σ snap ∧
      Produced k c snap newBody
  | .written _ orphans snap newBody txID =>
    Silent c σ ∧ (∀ id ∈ orphans, Unlanded k c σ id) ∧ Snapshot k σ snap ∧
      Produced k c snap newBody ∧ Unlanded k c σ txID ∧ Recorded k c σ snap txID
  | .landed txID => Sole k c σ txID
  | .done (.ok txID) => Sole k c σ txID
  | .done (.error e) =>
    (strict → Silent c σ) ∧ AtMostOne c σ ∧ ∀ id ∈ e.orphans, Unlanded k c σ id

/-- What a step of call `c` may do to the store. -/
structure Guarantee (k : Kernel V) (c : CallId) (σ σ' : Store V) : Prop where
  txs : ∀ id record, σ.txs id = some record → σ'.txs id = some record
  owner : ∀ id d, σ.owner id = some d → σ'.owner id = some d
  chain : (σ'.links = σ.links ∧ σ'.history = σ.history) ∨
    ∃ link, link.call = c ∧ σ'.links = link :: σ.links ∧ σ'.history = link.next :: σ.history ∧
      ∀ id, LatestTx k link.next id → σ'.owner id = some c

theorem Guarantee.refl (k : Kernel V) (c : CallId) (σ : Store V) : Guarantee k c σ σ :=
  ⟨fun _ _ held => held, fun _ _ held => held, .inl ⟨rfl, rfl⟩⟩

variable {c : CallId} {σ : Store V} {k : Kernel V}
  {events : List (Event (System V) (CallId × Label))} {s : System V} {σ' : Store V}
  {phase phase' : Phase V} {label : Label}

theorem Silent.atMostOne (silent : Silent c σ) : AtMostOne c σ := by
  have none : σ.links.filter (fun l => l.call = c) = [] := by
    apply filter_eq_nil_iff.mpr
    intro link member
    simpa using silent link member
  simp [AtMostOne, none]

/-! Stability: what a call knows survives the steps of every other call. -/

section Stability

variable {k : Kernel V} {c d : CallId} {σ σ' : Store V}

variable {r : RootObject V} {id : TxID}

theorem Guarantee.history_grows (guaranteed : Guarantee k d σ σ') (member : r ∈ σ.history) :
    r ∈ σ'.history := by
  rcases guaranteed.chain with ⟨-, same⟩ | ⟨link, -, -, grown, -⟩
  · exact same ▸ member
  · rw [grown]
    exact mem_cons_of_mem _ member

theorem Guarantee.filter_links (guaranteed : Guarantee k d σ σ') (different : c ≠ d) :
    σ'.links.filter (fun l => l.call = c) = σ.links.filter fun l => l.call = c := by
  rcases guaranteed.chain with ⟨same, -⟩ | ⟨link, author, grown, -, -⟩
  · rw [same]
  · have other : ¬ link.call = c := by
      rw [author]
      exact different.symm
    simp [grown, other]

theorem silent_iff_filter : Silent c σ ↔ σ.links.filter (fun l => l.call = c) = [] := by
  simp [Silent]

theorem Silent.stable (silent : Silent c σ) (different : c ≠ d)
    (guaranteed : Guarantee k d σ σ') : Silent c σ' := by
  rw [silent_iff_filter, guaranteed.filter_links different]
  exact silent_iff_filter.mp silent

theorem Guarantee.history_of_latest (guaranteed : Guarantee k d σ σ') (different : c ≠ d)
    (mine : σ.owner id = some c) (member : r ∈ σ'.history) (carries : LatestTx k r id) :
    r ∈ σ.history := by
  rcases guaranteed.chain with ⟨-, same⟩ | ⟨link, -, -, grown, author⟩
  · exact same ▸ member
  · rw [grown] at member
    rcases mem_cons.mp member with rfl | older
    · have theirs := author id carries
      rw [guaranteed.owner id c mine] at theirs
      exact absurd (Option.some.inj theirs) different
    · exact older

theorem Unlanded.stable (unlanded : Unlanded k c σ id) (different : c ≠ d)
    (guaranteed : Guarantee k d σ σ') : Unlanded k c σ' id := by
  refine ⟨guaranteed.owner id c unlanded.1, ?_⟩
  intro r member carries
  exact unlanded.2 r (guaranteed.history_of_latest different unlanded.1 member carries) carries

theorem Sole.stable (sole : Sole k c σ id) (different : c ≠ d) (guaranteed : Guarantee k d σ σ') :
    Sole k c σ' id := by
  obtain ⟨mine, link, only, names, unique⟩ := sole
  refine ⟨guaranteed.owner id c mine, link, ?_, names, ?_⟩
  · rw [guaranteed.filter_links different, only]
  · intro r member carries
    exact unique r (guaranteed.history_of_latest different mine member carries) carries

theorem Snapshot.grows {view : RootView V} (snapshot : Snapshot k σ view)
    (guaranteed : Guarantee k d σ σ') : Snapshot k σ' view := by
  obtain ⟨r, member, read⟩ := snapshot
  exact ⟨r, guaranteed.history_grows member, read⟩

theorem Recorded.grows {snap : RootView V} {txID : TxID} (recorded : Recorded k c σ snap txID)
    (guaranteed : Guarantee k d σ σ') : Recorded k c σ' snap txID := by
  obtain ⟨now, record, stored, marshalled⟩ := recorded
  exact ⟨now, record, guaranteed.txs _ _ stored, marshalled⟩

theorem Local.stable {strict : Prop} {phase : Phase V} (different : c ≠ d)
    (guaranteed : Guarantee k d σ σ') (here : Local k strict c σ phase) :
    Local k strict c σ' phase := by
  cases phase with
  | idle => exact Silent.stable here different guaranteed
  | head attempt orphans =>
    exact ⟨here.1.stable different guaranteed,
      fun id member => (here.2 id member).stable different guaranteed⟩
  | called attempt orphans view =>
    obtain ⟨silent, unlanded, snapshot⟩ := here
    exact ⟨silent.stable different guaranteed,
      fun id member => (unlanded id member).stable different guaranteed,
      snapshot.grows guaranteed⟩
  | built attempt orphans snap newBody =>
    obtain ⟨silent, unlanded, snapshot, produced⟩ := here
    exact ⟨silent.stable different guaranteed,
      fun id member => (unlanded id member).stable different guaranteed,
      snapshot.grows guaranteed, produced⟩
  | written attempt orphans snap newBody txID =>
    obtain ⟨silent, unlanded, snapshot, produced, pending, recorded⟩ := here
    exact ⟨silent.stable different guaranteed,
      fun id member => (unlanded id member).stable different guaranteed,
      snapshot.grows guaranteed, produced, pending.stable different guaranteed,
      recorded.grows guaranteed⟩
  | landed txID => exact Sole.stable here different guaranteed
  | done result =>
    cases result with
    | ok txID => exact Sole.stable here different guaranteed
    | error e =>
      obtain ⟨silent, few, unlanded⟩ := here
      refine ⟨fun truthful => (silent truthful).stable different guaranteed, ?_,
        fun id member => (unlanded id member).stable different guaranteed⟩
      rw [AtMostOne, guaranteed.filter_links different]
      exact few

end Stability

section Steps

variable {k : Kernel V} {c : CallId} {σ : Store V} {first : RootObject V}

variable {root : RootObject V} {snap : RootView V} {txID : TxID} {link : Link V} {strict : Prop}

theorem readView_version {semver : Semver} {view : RootView V}
    (read : readView semver root = .ok view) : view.version = root.version := by
  unfold readView at read
  cases parsed : readRoot semver root.doc with
  | error e => simp [parsed, Except.map] at read
  | ok value =>
    simp only [parsed, Except.map, Except.ok.injEq] at read
    rw [← read]

theorem Sound.root_of_snapshot (sound : Sound k first σ) (snapshot : Snapshot k σ snap)
    (current : σ.root.version = snap.version) : readView k.semver σ.root = .ok snap := by
  obtain ⟨r, member, read⟩ := snapshot
  have same : r.version = σ.root.version := by rw [current, readView_version read]
  have identical : r = σ.root :=
    inj_on_of_nodup_map sound.distinct member sound.current same
  exact identical ▸ read

attribute [local simp] Bucket.withRoot recordTx Store.recordTx Label.lost

theorem Guarantee.of_recordTx (sound : Sound k first σ) (fresh : σ.txs txID = none)
    (record : Fields V) : Guarantee k c σ (σ.recordTx c txID record) := by
  refine ⟨?_, ?_, .inl ⟨rfl, rfl⟩⟩
  · intro id held stored
    have different : id ≠ txID := by
      rintro rfl
      simp [fresh] at stored
    simpa [different] using stored
  · intro id d owned
    have different : id ≠ txID := by
      rintro rfl
      have stored := sound.minted id d owned
      simp [fresh] at stored
    simpa [different] using owned

theorem Sound.recordTx (sound : Sound k first σ) (c : CallId) (txID : TxID) (record : Fields V) :
    Sound k first (σ.recordTx c txID record) := by
  have kept : ∀ id, (σ.txs id).isSome = true →
      ((σ.recordTx c txID record).txs id).isSome = true := by
    intro id stored
    by_cases same : id = txID
    · simp [same]
    · simpa [same] using stored
  refine ⟨sound.chained, sound.history, sound.distinct, sound.current, sound.linked, ?_, ?_⟩
  · intro id d owned
    by_cases same : id = txID
    · simp [same]
    · apply kept
      apply sound.minted id d
      simpa [same] using owned
  · intro r member id carries
    exact kept id (sound.latest r member id carries)

theorem latestTx_unique {id other : TxID} (carries : LatestTx k root id)
    (also : LatestTx k root other) : id = other := by
  obtain ⟨view, read, rfl⟩ := carries
  obtain ⟨view', read', rfl⟩ := also
  rw [read] at read'
  cases read'
  rfl

theorem Linked.latestTx (linked : Linked k link) : LatestTx k link.next link.txID := by
  obtain ⟨now, fields, -, read⟩ := linked.wrote
  exact ⟨_, read, rfl⟩

theorem linked_of_casTaken (sound : Sound k first σ) {newBody : RawMessage V} {now : Time}
    {doc : Fields V} (version : ObjectVersion) (snapshot : Snapshot k σ snap)
    (produced : Produced k c snap newBody) (recorded : Recorded k c σ snap txID)
    (wrapped : wrapHeaderInBody (nextHeader snap.header txID now) newBody = .ok doc)
    (current : σ.root.version = snap.version) :
    Linked k ⟨c, σ.root, ⟨doc, version⟩, txID, σ.txs txID, snap, newBody⟩ := by
  have read := sound.root_of_snapshot snapshot current
  have gate : schemaGate k.semver snap.header.schemaVersion snap.header.minReaderVersion =
      .ok () := by
    unfold readView at read
    cases parsed : readRoot k.semver σ.root.doc with
    | error e => simp [parsed, Except.map] at read
    | ok value =>
      simp only [parsed, Except.map, Except.ok.injEq] at read
      rw [← read]
      exact readRoot_ok parsed
  obtain ⟨fields, decoded, reread⟩ := readRoot_wrapHeaderInBody wrapped gate
  obtain ⟨started, record, stored, marshalled⟩ := recorded
  refine ⟨read, produced, ⟨now, fields, decoded, ?_⟩, record, stored, ?_, ?_, ?_⟩
  · simp [readView, reread, Except.map]
  · exact Tx.lookup_marshal marshalled (by simp [Tx.headerFields, Kernel.txHeader])
  · exact Tx.lookup_marshal marshalled (by simp [Tx.headerFields, Kernel.txHeader])
  · exact Tx.lookup_marshal marshalled (by simp [Tx.headerFields, Kernel.txHeader, current])

theorem Sound.replaceRoot (sound : Sound k first σ) (linked : Linked k link)
    (replaced : link.prev = σ.root) (unused : ∀ r ∈ σ.history, r.version ≠ link.next.version)
    (stored : (σ.txs link.txID).isSome = true) : Sound k first (σ.replaceRoot link) := by
  refine ⟨⟨rfl, replaced ▸ sound.chained⟩, ?_, ?_, mem_cons_self, ?_, sound.minted, ?_⟩
  · simp [Store.replaceRoot, sound.history]
  · refine nodup_cons.mpr ⟨?_, sound.distinct⟩
    intro member
    obtain ⟨r, inside, same⟩ := mem_map.mp member
    exact unused r inside same
  · intro other member
    rcases mem_cons.mp member with rfl | older
    · exact linked
    · exact sound.linked other older
  · intro r member id carries
    rcases mem_cons.mp member with rfl | older
    · rw [latestTx_unique carries linked.latestTx]
      exact stored
    · exact sound.latest r older id carries

theorem Guarantee.of_replaceRoot (linked : Linked k link) (author : link.call = c)
    (mine : σ.owner link.txID = some c) : Guarantee k c σ (σ.replaceRoot link) := by
  refine ⟨fun _ _ held => held, fun _ _ held => held, .inr ⟨link, author, rfl, rfl, ?_⟩⟩
  intro id carries
  rw [latestTx_unique carries linked.latestTx]
  exact mine

theorem Sole.of_replaceRoot (link : Link V) (author : link.call = c) (silent : Silent c σ)
    (unlanded : Unlanded k c σ link.txID) : Sole k c (σ.replaceRoot link) link.txID := by
  refine ⟨unlanded.1, link, ?_, rfl, ?_⟩
  · simp [replaceRoot, author, silent_iff_filter.mp silent]
  · intro r member carries
    rcases mem_cons.mp member with rfl | older
    · rfl
    · exact absurd carries (unlanded.2 r older)

/-- A mismatch is tolerated by nobody when it hides an effective put; any other lost reply
only by the weaker reading. -/
def Tolerated (strict : Prop) (label : Label) : Prop :=
  ¬ label.misreported ∧ (strict → ¬ label.lost)

theorem local_afterMismatch (policy : CommitPolicy) (attempt : Nat) {orphans : List TxID}
    (silent : Silent c σ) (unlanded : ∀ id ∈ orphans, Unlanded k c σ id) :
    Local k strict c σ (afterMismatch policy attempt orphans) := by
  unfold afterMismatch
  split
  · exact ⟨silent, unlanded⟩
  · exact ⟨fun _ => silent, silent.atMostOne, unlanded⟩

theorem local_error {cause : RepoError} (silent : Silent c σ) :
    Local k strict c σ (.done (.error (.failed cause))) :=
  ⟨fun _ => silent, silent.atMostOne, by simp [CommitError.orphans]⟩

/-- Every step of a call keeps the chain sound, keeps what the call knows and stays inside
the call's guarantee. -/
theorem move_sound {σ' : Store V} {phase phase' : Phase V} {label : Label} (sound : Sound k first σ)
    (here : Local k strict c σ phase) (tolerated : Tolerated strict label)
    (moved : Move k c σ phase label σ' phase') :
    Sound k first σ' ∧ Local k strict c σ' phase' ∧ Guarantee k c σ σ' := by
  cases moved with
  | start => exact ⟨sound, ⟨here, by simp⟩, .refl k c σ⟩
  | cancelAtHead text | cancelAfterCallback text | cancelBeforeCas text | readFails cause
  | callbackError ran returned | txFails cause | wrapFails refused | casFails text wrapped =>
    exact ⟨sound, local_error here.1, .refl k c σ⟩
  | readRoot read =>
    exact ⟨sound, ⟨here.1, here.2, σ.root, sound.current, read⟩, .refl k c σ⟩
  | callbackOk ran returned =>
    obtain ⟨silent, unlanded, snapshot⟩ := here
    exact ⟨sound, ⟨silent, unlanded, snapshot, _, ran, returned⟩, .refl k c σ⟩
  | @writeTx _ _ snap newBody txID now record fresh marshalled =>
    obtain ⟨silent, unlanded, snapshot, produced⟩ := here
    refine ⟨sound.recordTx c _ record, ⟨silent, ?_, snapshot, produced, ?_, now, record, ?_,
      marshalled⟩, .of_recordTx sound fresh record⟩
    · intro id member
      exact ⟨(Guarantee.of_recordTx sound fresh record).owner id c (unlanded id member).1,
        (unlanded id member).2⟩
    · refine ⟨by simp, ?_⟩
      intro r member carries
      have stored := sound.latest r member _ carries
      simp [fresh] at stored
    · simp
  | @txFailsStored _ _ _ _ txID now record fresh marshalled cause =>
    exact ⟨sound.recordTx c txID record, local_error (σ := σ.recordTx c txID record) here.1,
      .of_recordTx sound fresh record⟩
  | @casTaken attempt orphans snap newBody txID now doc version reply wrapped current unused =>
    obtain ⟨silent, unlanded, snapshot, produced, pending, recorded⟩ := here
    have linked := linked_of_casTaken sound version snapshot produced recorded wrapped current
    have stored : (σ.txs txID).isSome = true := sound.minted txID c pending.1
    refine ⟨sound.replaceRoot linked rfl unused stored, ?_, .of_replaceRoot linked rfl pending.1⟩
    have sole := Sole.of_replaceRoot
      ⟨c, σ.root, ⟨doc, version⟩, txID, σ.txs txID, snap, newBody⟩ rfl silent pending
    cases reply with
    | applied => exact sole
    | mismatch => exact absurd trivial tolerated.1
    | failed text =>
      refine ⟨fun truthful => absurd (by simp) (tolerated.2 truthful), ?_,
        by simp [CommitError.orphans]⟩
      obtain ⟨-, link, only, -, -⟩ := sole
      exact (congrArg length only).le
  | @casRefused attempt orphans snap newBody txID now doc wrapped stale =>
    obtain ⟨silent, unlanded, -, -, pending, -⟩ := here
    refine ⟨sound, local_afterMismatch _ _ silent ?_, .refl k c σ⟩
    intro id member
    rcases mem_append.mp member with old | new
    · exact unlanded id old
    · rw [mem_singleton.mp new]
      exact pending
  | marker stored =>
    exact ⟨⟨sound.chained, sound.history, sound.distinct, sound.current, sound.linked,
      sound.minted, sound.latest⟩, here,
      ⟨fun _ _ held => held, fun _ _ held => held, .inl ⟨rfl, rfl⟩⟩⟩

end Steps

theorem create_fresh {bucket : Bucket V} {repoID : String} {options : CreateOptions} {txID : TxID}
    {now : Time} {version : ObjectVersion} {bodyOf : String → RawMessage V} {marked : Bool}
    (gate : schemaGate k.semver currentSchemaVersion supportedReaderVersion = .ok ())
    (created : create bucket repoID options txID now version bodyOf marked = .ok σ) :
    Fresh k σ := by
  unfold create at created
  simp only [bind, Except.bind] at created
  split at created
  · cases created
  split at created
  · cases created
  next record marshalled =>
  split at created
  · cases created
  split at created
  · cases created
  next doc wrapped =>
  split at created
  · cases created
  cases created
  obtain ⟨fields, -, read⟩ := readRoot_wrapHeaderInBody wrapped gate
  refine ⟨rfl, rfl, fun _ => rfl, ⟨createHeader repoID options.normalize.objectFormat txID now,
    fields, version⟩, ?_, ?_⟩
  · simp [Bucket.withRoot, readView, read, Except.map]
  · simp [Bucket.withRoot, createHeader]

/-! Whole runs. -/

def initial (σ : Store V) : System V := ⟨σ, fun _ => .idle⟩

theorem Fresh.safe (fresh : Fresh k σ) (strict : Prop) :
    Interleave.Safe (Sound k σ.root) (Local k strict) (initial σ) := by
  obtain ⟨view, read, stored⟩ := fresh.latest
  refine ⟨⟨?_, ?_, ?_, ?_, ?_, ?_, ?_⟩, ?_⟩
  · change Chained σ.root σ.links σ.root
    rw [fresh.links]
    rfl
  · change σ.history = σ.links.map Link.next ++ [σ.root]
    rw [fresh.links, fresh.history]
    rfl
  · change (σ.history.map RootObject.version).Nodup
    simp [fresh.history]
  · change σ.root ∈ σ.history
    simp [fresh.history]
  · intro link member
    change link ∈ σ.links at member
    simp [fresh.links] at member
  · intro id c owned
    change σ.owner id = some c at owned
    simp [fresh.owner] at owned
  · intro r member id carries
    change r ∈ σ.history at member
    rw [fresh.history, mem_singleton] at member
    subst member
    rw [latestTx_unique carries ⟨view, read, rfl⟩]
    exact stored
  · intro c link member
    change link ∈ σ.links at member
    simp [fresh.links] at member

theorem run_safe (fresh : Fresh k σ) (strict : Prop) (run : Run (Step k) (initial σ) events s)
    (tolerated : ∀ e ∈ events, Tolerated strict e.label.2) :
    Interleave.Safe (Sound k σ.root) (Local k strict) s := by
  refine Interleave.safe_of_rely_guarantee (Guarantee k) (fresh.safe strict) ?_ ?_ run tolerated
  · intro s s' c label sound here permitted moved
    exact move_sound sound here permitted moved
  · intro d c before after phase different _ guaranteed here
    exact here.stable different guaranteed

theorem Move.history_grows (moved : Move k c σ phase label σ' phase') {r : RootObject V}
    (member : r ∈ σ.history) : r ∈ σ'.history := by
  cases moved <;> first | exact member | exact mem_cons_of_mem _ member

theorem Move.root_mem (moved : Move k c σ phase label σ' phase') (member : σ.root ∈ σ.history) :
    σ'.root ∈ σ'.history := by
  cases moved <;> first | exact member | exact mem_cons_self

theorem history_complete (fresh : Fresh k σ) (run : Run (Step k) (initial σ) events s) :
    s.shared.root ∈ s.shared.history ∧ ∀ e ∈ events, e.pre.shared.root ∈ s.shared.history := by
  induction run with
  | nil =>
    refine ⟨?_, by simp⟩
    change σ.root ∈ σ.history
    simp [fresh.history]
  | @next events s s' l before taken ih =>
    obtain ⟨moved, -⟩ := taken.moved
    refine ⟨moved.root_mem ih.1, ?_⟩
    intro e member
    rcases mem_cons.mp member with rfl | older
    · exact moved.history_grows ih.1
    · exact moved.history_grows (ih.2 e older)

section Attempts

open Interleave

variable {start : System V} {allowed : Event (System V) (CallId × Label) → Prop} (c : CallId)
  {attempt : Nat} {orphans : List TxID} {view : RootView V} {outcome : Outcome V}
  {newBody : RawMessage V} (txID : TxID) (started : Time) {record : Fields V}
  (reached : Reached (Move k) allowed start s) (stands : s.threads c = .head attempt orphans)
  (read : readView k.semver s.shared.root = .ok view) (ran : (k.request c).buildBody view outcome)
  (returned : outcome.result = .ok newBody) (fresh : s.shared.txs txID = none)
  (marshalled : Tx.marshal (k.txHeader view txID started) (k.request c).txBody = .ok record)
  (quiet : ∀ e, ¬ e.label.2.lost → allowed e)

include reached stands read ran returned fresh marshalled quiet

theorem attempt_writes : Reached (Move k) allowed start (advance s c
    (s.shared.recordTx c txID record) (.written attempt orphans view newBody txID)) := by
  have reading := reached.take c stands (.readRoot read) (quiet _ (by simp [Label.lost]))
  have calling := reading.again (.callbackOk ran returned) (quiet _ (by simp [Label.lost]))
  exact calling.again (.writeTx fresh marshalled) (quiet _ (by simp [Label.lost]))

theorem attempt_lands (now : Time) {doc : Fields V} (version : ObjectVersion)
    (wrapped : wrapHeaderInBody (nextHeader view.header txID now) newBody = .ok doc)
    (unused : ∀ r ∈ s.shared.history, r.version ≠ version) (reply : Reply)
    (replied : ∀ e, e.label.2 = .cas true reply → allowed e) :
    Reached (Move k) allowed start (advance s c
      ((s.shared.recordTx c txID record).replaceRoot
        ⟨c, s.shared.root, ⟨doc, version⟩, txID, some record, view, newBody⟩)
      (afterReply (k.request c).policy attempt orphans txID reply)) := by
  have current : s.shared.root.version = view.version := (readView_version read).symm
  have writing := attempt_writes c txID started reached stands read ran returned fresh marshalled quiet
  have swapping := writing.again (.casTaken reply wrapped current unused) (replied _ rfl)
  have stored : (s.shared.recordTx c txID record).txs txID = some record := by
    simp [recordTx]
  rwa [stored] at swapping

end Attempts

theorem Label.misreported.lost {l : Label} (misreported : l.misreported) : l.lost := by
  cases l with
  | cas effective reply => cases effective <;> cases reply <;> simp_all [Label.misreported, Label.lost]
  | _ => cases misreported

/-- Concurrent commits are linearizable. Over a store whose conditional put reports
truly, the roots that were ever current are one chain of correct links from the first
root; a call that returned an id is exactly one of these links and the only root carrying
its id; a call that returned an error is none of them, and no root carries an id it
reports as an orphan. -/
theorem commit_linearizable (k : Kernel V) (σ : Store V) (fresh : Fresh k σ)
    (events : List (Event (System V) (CallId × Label))) (s : System V)
    (run : Run (Step k) (initial σ) events s) (truthful : ∀ e ∈ events, ¬ e.label.2.lost) :
    (∀ e ∈ events, e.pre.shared.root ∈ s.shared.history) ∧
    s.shared.history = s.shared.links.map Link.next ++ [σ.root] ∧
    Chained σ.root s.shared.links s.shared.root ∧
    (∀ link ∈ s.shared.links, Linked k link) ∧
    (∀ c id, s.threads c = .done (.ok id) →
      ∃ link, s.shared.links.filter (fun l => l.call = c) = [link] ∧ LatestTx k link.next id ∧
        ∀ r ∈ s.shared.history, LatestTx k r id → r = link.next) ∧
    (∀ c e, s.threads c = .done (.error e) →
      (∀ link ∈ s.shared.links, link.call ≠ c) ∧
        ∀ id ∈ e.orphans, ∀ r ∈ s.shared.history, ¬ LatestTx k r id) := by
  have tolerated : ∀ e ∈ events, Tolerated True e.label.2 := by
    intro e member
    exact ⟨fun misreported => truthful e member misreported.lost, fun _ => truthful e member⟩
  have safe := run_safe fresh True run tolerated
  refine ⟨(history_complete fresh run).2, safe.global.history, safe.global.chained,
    safe.global.linked, ?_, ?_⟩
  · intro c id returned
    have here := safe.thread c
    rw [returned] at here
    obtain ⟨-, link, only, names, unique⟩ := here
    have member : link ∈ s.shared.links := by
      apply mem_of_mem_filter (p := fun l => l.call = c)
      simp [only]
    exact ⟨link, only, names ▸ (safe.global.linked link member).latestTx, unique⟩
  · intro c e returned
    have here := safe.thread c
    rw [returned] at here
    obtain ⟨silent, -, unlanded⟩ := here
    exact ⟨silent trivial, fun id member => (unlanded id member).2⟩

/-! A repository made by `Create` and one call whose callback ignores what it is given. -/

def sampleVersion (token : String) : ObjectVersion := ⟨"memory", token, .opaqueToken⟩

def sampleHeader (version : UInt64) (txID : TxID) : RootHeader :=
  { createHeader "r" "sha1" txID 0 with manifestVersion := version }

def sampleRoot (version : UInt64) (txID : TxID) (token : String) : RootObject Unit :=
  ⟨Dict.insertAll (headerFields (sampleHeader version txID)) ∅, sampleVersion token⟩

def sampleKernel (maxRetries : Int) : Kernel Unit :=
  { semver := ⟨fun _ => true, fun _ _ => 0⟩
    repoID := "r"
    request := fun _ =>
      { txBody := ⟨"push", "u", none, none, none, .empty⟩
        policy := { defaultPolicy with maxRetries := maxRetries }
        buildBody := fun view outcome => outcome = ⟨.ok (.object ∅), view⟩ } }

def sampleRecord (header : Tx.Header) (type actor : String) : Fields Unit :=
  Dict.insertAll (Tx.headerFields header ++ [("type", .string type), ("actor", .string actor)]) ∅

def sampleBucket : Bucket Unit := ⟨none, fun _ => none, fun _ => false⟩

def sampleStore : Store Unit :=
  sampleBucket.withRoot "tx_1" (sampleRecord ⟨1, "tx_1", "r", 0, "", 0⟩ "create" "unknown")
    (sampleRoot 1 "tx_1" "v1") true

theorem sampleStore_fresh (maxRetries : Int) : Fresh (sampleKernel maxRetries) sampleStore := by
  have created : create sampleBucket "r" ⟨"", "", ""⟩ "tx_1" 0 (sampleVersion "v1")
      (fun _ => .object ∅) true = .ok sampleStore := rfl
  exact create_fresh rfl created

def sampleLink (version : UInt64) (prev next : TxID) (was now : String) : Link Unit :=
  ⟨0, sampleRoot version prev was, sampleRoot (version + 1) next now, next,
    some (sampleRecord ⟨1, next, "r", version, was, 0⟩ "push" "u"),
    ⟨sampleHeader version prev, ∅, sampleVersion was⟩, .object ∅⟩

def sampleLanded (σ : Store Unit) (link : Link Unit) : Store Unit :=
  (σ.recordTx 0 link.txID (link.record.getD ∅)).replaceRoot link

open Interleave in
theorem sample_first_attempt {allowed : Event (System Unit) (CallId × Label) → Prop}
    (quiet : ∀ e, ¬ e.label.2.lost → allowed e) (maxRetries : Int) (reply : Reply)
    (replied : ∀ e, e.label.2 = .cas true reply → allowed e) :
    Reached (Move (sampleKernel maxRetries)) allowed (initial sampleStore)
      (advance (initial sampleStore) 0
        (sampleLanded sampleStore (sampleLink 1 "tx_1" "tx_2" "v1" "v2"))
        (afterReply { defaultPolicy with maxRetries := maxRetries } 1 [] "tx_2" reply)) := by
  have begun : Reached (Move (sampleKernel maxRetries)) allowed (initial sampleStore) _ :=
    (reached_start _).take 0 rfl .start (quiet _ (by simp [Label.lost]))
  have landed := attempt_lands 0 "tx_2" 0 begun (advance_self ..)
    (show _ = Except.ok ⟨sampleHeader 1 "tx_1", ∅, sampleVersion "v1"⟩ from rfl) rfl rfl
    (by decide) rfl quiet 0 (sampleVersion "v2") rfl (by decide) reply replied
  rw [advance_advance] at landed
  exact landed

/-- Call 1 writes its record before call 0 lands, and so loses its put and tries again. -/
theorem commit_linearizable_sample :
    ∃ events s, Run (Step (sampleKernel 8)) (initial sampleStore) events s ∧
      s.threads 0 = .done (.ok "tx_2") ∧ s.threads 1 = .done (.ok "tx_4") ∧
      Chained (sampleRoot 1 "tx_1" "v1") s.shared.links s.shared.root ∧
      ∃ link, s.shared.links.filter (fun l => l.call = 1) = [link] ∧
        Linked (sampleKernel 8) link ∧ LatestTx (sampleKernel 8) link.next "tx_4" := by
  let Truthful : Event (System Unit) (CallId × Label) → Prop := fun e => ¬ e.label.2.lost
  have quiet : ∀ e, ¬ e.label.2.lost → Truthful e := fun _ truthful => truthful
  have replied : ∀ e, e.label.2 = .cas true .applied → Truthful e := by
    intro e same
    simp [Truthful, same, Label.lost]
  have begun : Interleave.Reached (Move (sampleKernel 8)) Truthful (initial sampleStore) _ :=
    (Interleave.reached_start _).take 1 rfl .start (by simp [Truthful, Label.lost])
  have writing := attempt_writes 1 "tx_3" 0 begun (Interleave.advance_self ..)
    (show _ = Except.ok ⟨sampleHeader 1 "tx_1", ∅, sampleVersion "v1"⟩ from rfl) rfl rfl
    (by decide) rfl quiet
  have other := writing.take 0 rfl .start (by simp [Truthful, Label.lost])
  have landed := attempt_lands 0 "tx_2" 0 other (Interleave.advance_self ..)
    (show _ = Except.ok ⟨sampleHeader 1 "tx_1", ∅, sampleVersion "v1"⟩ from rfl) rfl rfl
    (by decide) rfl quiet 0 (sampleVersion "v2") rfl (by decide) .applied replied
  have marked := landed.again (.marker true) (by simp [Truthful, Label.lost])
  have refused := marked.take 1 rfl (.casRefused
    (show wrapHeaderInBody (nextHeader (sampleHeader 1 "tx_1") "tx_3" 0) (.object ∅) = .ok _ from rfl)
    (by decide)) (by simp [Truthful, Label.lost])
  have retried := attempt_lands 1 "tx_4" 0 refused (show _ = Phase.head 2 ["tx_3"] from rfl)
    (show _ = Except.ok ⟨sampleHeader 2 "tx_2", ∅, sampleVersion "v2"⟩ from rfl) rfl rfl
    (by decide) rfl quiet 0 (sampleVersion "v3") rfl (by decide) .applied replied
  obtain ⟨events, run, truthful⟩ := retried.again (.marker true) (by simp [Truthful, Label.lost])
  obtain ⟨-, -, chained, linked, returned, -⟩ :=
    commit_linearizable (sampleKernel 8) sampleStore (sampleStore_fresh 8) events _ run truthful
  obtain ⟨link, only, latest, -⟩ := returned 1 "tx_4" rfl
  have member : link ∈ _ := mem_of_mem_filter (only ▸ mem_singleton_self link)
  exact ⟨events, _, run, rfl, rfl, chained, link, only, linked link member, latest⟩

/-- A lost reply that surfaces as a transient error is harmless to the chain: as long as no
effective put is reported as a version mismatch, a call contributes at most one root and
reports no landed id as an orphan. -/
theorem commit_at_most_once (k : Kernel V) (σ : Store V) (fresh : Fresh k σ)
    (events : List (Event (System V) (CallId × Label))) (s : System V)
    (run : Run (Step k) (initial σ) events s) (reported : ∀ e ∈ events, ¬ e.label.2.misreported) :
    (∀ c, (s.shared.links.filter fun l => l.call = c).length ≤ 1) ∧
    (∀ c e, s.threads c = .done (.error e) →
      ∀ id ∈ e.orphans, ∀ r ∈ s.shared.history, ¬ LatestTx k r id) := by
  have tolerated : ∀ e ∈ events, Tolerated False e.label.2 :=
    fun e member => ⟨reported e member, False.elim⟩
  have safe := run_safe fresh False run tolerated
  refine ⟨?_, ?_⟩
  · intro c
    have here := safe.thread c
    generalize s.threads c = phase at here
    have once (id : TxID) (sole : Sole k c s.shared id) :
        (s.shared.links.filter fun l => l.call = c).length ≤ 1 := by
      obtain ⟨-, link, only, -, -⟩ := sole
      exact (congrArg length only).le
    cases phase with
    | idle => exact Silent.atMostOne here
    | head attempt orphans | called attempt orphans view | built attempt orphans snap newBody
    | written attempt orphans snap newBody txID => exact here.1.atMostOne
    | landed txID => exact once txID here
    | done result =>
      cases result with
      | ok txID => exact once txID here
      | error e => exact here.2.1
  · intro c e returned
    have here := safe.thread c
    rw [returned] at here
    exact fun id member => (here.2.2 id member).2

theorem commit_at_most_once_sample :
    ∃ events s, Run (Step (sampleKernel 8)) (initial sampleStore) events s ∧
      s.threads 0 = .done (.error (.failed (.storage "timeout"))) ∧
      (s.shared.links.filter fun l => l.call = 0).length = 1 ∧
      ∀ c, (s.shared.links.filter fun l => l.call = c).length ≤ 1 := by
  let Reported : Event (System Unit) (CallId × Label) → Prop := fun e => ¬ e.label.2.misreported
  obtain ⟨events, run, reported⟩ := sample_first_attempt
    (show ∀ e, ¬ e.label.2.lost → Reported e from fun e truthful told => truthful told.lost) 8
    (.failed "timeout") fun e same => by simp [Reported, same, Label.misreported]
  exact ⟨events, _, run, rfl, rfl,
    (commit_at_most_once (sampleKernel 8) sampleStore (sampleStore_fresh 8) _ _ run reported).1⟩

/-- An effective put reported as a mismatch is retried: with a second attempt one call makes
two roots, without one it reports the id of the current root as an orphan. -/
theorem misreported_put_commits_twice :
    (∃ events s, Run (Step (sampleKernel 8)) (initial sampleStore) events s ∧
      s.threads 0 = .landed "tx_3" ∧
      (s.shared.links.filter fun l => l.call = 0).length = 2) ∧
    (∃ events s, Run (Step (sampleKernel 1)) (initial sampleStore) events s ∧
      s.threads 0 = .done (.error (.gaveUp 1 ["tx_2"] .versionMismatch)) ∧
      LatestTx (sampleKernel 1) s.shared.root "tx_2") := by
  refine ⟨?_, ?_⟩
  · have first := sample_first_attempt (fun _ _ => trivial) 8 .mismatch fun _ _ => trivial
    obtain ⟨later, again, -⟩ := attempt_lands 0 "tx_3" 0 first
      (show _ = Phase.head 2 ["tx_2"] from rfl)
      (show _ = Except.ok ⟨sampleHeader 2 "tx_2", ∅, sampleVersion "v2"⟩ from rfl) rfl rfl
      (by decide) rfl (fun _ _ => trivial) 0 (sampleVersion "v3") rfl (by decide) .applied
      fun _ _ => trivial
    exact ⟨later, _, again, rfl, rfl⟩
  · obtain ⟨events, run, -⟩ := sample_first_attempt (fun _ _ => trivial) 1 .mismatch fun _ _ => trivial
    exact ⟨events, _, run, rfl, ⟨sampleHeader 2 "tx_2", ∅, sampleVersion "v2"⟩, rfl, rfl⟩

end BucketVcs.Repo
