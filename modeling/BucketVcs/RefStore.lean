import BucketVcs.Manifest.Body

/-! The two ref layouts behind one interface: a map inside the manifest body, or
content-addressed shard objects grouped by the first hash byte of the ref name. -/

namespace BucketVcs.RefStore

open Manifest List Function Finmap Dict

/-- The two uses of SHA-256. Distinct shard contents have distinct hashes. -/
structure Hashing where
  shardKey : RefName → UInt8
  contentHash : Members → String
  contentHash_injective : Function.Injective contentHash

inductive Error where
  | fetch (shard : UInt8) (key : Key)
  | corrupt (shard : UInt8) (want got : String)
  | unsupportedSharding (tag : String)
  | notInStage
  deriving DecidableEq, Repr

/-- The shard objects of the bucket, by key. -/
abbrev Objects := Key → Option Members

/-- A ref update: the null or empty OID deletes. -/
abbrev Updates := List (RefName × OID)

structure ShardWrite where
  shard : UInt8
  key : Key
  hash : String
  contents : Members
  deriving DecidableEq

inductive Stage where
  | inline (newInlineRefs : RefMap)
  | sharded (newShardObjects : List ShardWrite) (newRefShards : List RefShard)

def deletes (oid : OID) : Bool := oid = "" ∨ oid = nullOID

def applyUpdate (refs : RefMap) (update : RefName × OID) : RefMap :=
  if deletes update.2 then refs.erase update.1 else refs.insert update.1 update.2

def applyUpdates (updates : Updates) (refs : RefMap) : RefMap := updates.foldl applyUpdate refs

variable (h : Hashing) (objects : Objects)

def fetchShard (ref : RefShard) : Except Error RefMap :=
  match objects ref.key with
  | none => .error (.fetch ref.shard ref.key)
  | some contents =>
    if h.contentHash contents = ref.hash then .ok (decodeRefs contents)
    else .error (.corrupt ref.shard ref.hash (h.contentHash contents))

def listShards : List RefShard → RefMap → Except Error RefMap
  | [], out => .ok out
  | ref :: rest, out => do
    let refs ← fetchShard h objects ref
    listShards rest (refs ∪ out)

def list (body : Body) : Except Error RefMap :=
  if body.refShards = [] then .ok body.refs
  else if isSupportedRefSharding body.refSharding then listShards h objects body.refShards ∅
  else .error (.unsupportedSharding body.refSharding)

def lookup (body : Body) (name : RefName) : Except Error (Option OID) :=
  if body.refShards = [] then .ok (body.refs.lookup name)
  else if isSupportedRefSharding body.refSharding then
    match body.refShards.find? fun ref => ref.shard = h.shardKey name with
    | none => .ok none
    | some ref => do
      let refs ← fetchShard h objects ref
      .ok (refs.lookup name)
  else .error (.unsupportedSharding body.refSharding)

def existingShard (shards : List RefShard) (shard : UInt8) : Option RefShard :=
  shards.find? fun ref => ref.shard = shard

def loadShard (shards : List RefShard) (shard : UInt8) : Except Error RefMap :=
  match existingShard shards shard with
  | none => .ok ∅
  | some ref => fetchShard h objects ref

def updatesOf (updates : Updates) (shard : UInt8) : Updates :=
  updates.filter fun update => h.shardKey update.1 = shard

/-- The manifest entry of a rewritten shard, and the object to write unless the content is
what the manifest already names. -/
def writeShard (shards : List RefShard) (shard : UInt8) (refs : RefMap) :
    RefShard × Option ShardWrite :=
  let contents := encodeRefs refs
  let hash := h.contentHash contents
  let entry (key : Key) : RefShard := ⟨shard, key, hash, refs.keys.card⟩
  let fresh := (entry (refShardKey hash), some ⟨shard, refShardKey hash, hash, contents⟩)
  match existingShard shards shard with
  | some ref => if ref.hash = hash then (entry ref.key, none) else fresh
  | none => fresh

/-- One changed shard: nothing when its last ref is gone. -/
def stageShard (shards : List RefShard) (updates : Updates) (shard : UInt8) :
    Except Error (Option (RefShard × Option ShardWrite)) := do
  let loaded ← loadShard h objects shards shard
  let refs := applyUpdates (updatesOf h updates shard) loaded
  if refs = ∅ then .ok none else .ok (some (writeShard h shards shard refs))

def changedShards (updates : Updates) : List UInt8 :=
  (updates.map fun update => h.shardKey update.1).dedup.insertionSort (· ≤ ·)

def stageSharded (shards : List RefShard) (updates : Updates) : Except Error Stage :=
  if updates = [] then .ok (.sharded [] shards)
  else do
    let changed := changedShards h updates
    let staged ← changed.mapM (stageShard h objects shards updates)
    let rewritten := staged.filterMap id
    let untouched := shards.filter fun ref => ref.shard ∉ changed
    .ok (.sharded (rewritten.filterMap Prod.snd)
      ((rewritten.map Prod.fst ++ untouched).insertionSort fun left right =>
        left.shard ≤ right.shard))

def stage (body : Body) (updates : Updates) : Except Error Stage :=
  if body.refShards = [] then .ok (.inline (applyUpdates updates body.refs))
  else if isSupportedRefSharding body.refSharding then
    stageSharded h objects body.refShards updates
  else .error (.unsupportedSharding body.refSharding)

/-- `Stage.Lookup`: in sharded mode only the shards about to be written are covered. -/
def Stage.lookup (name : RefName) : Stage → Except Error (Option OID)
  | .inline refs => .ok (refs.lookup name)
  | .sharded writes _ =>
    match writes.find? fun write => write.shard = h.shardKey name with
    | none => .error .notInStage
    | some write => .ok ((decodeRefs write.contents).lookup name)

/-- `PutIfAbsent` of shard objects: a key that exists is left alone. -/
def putShards (writes : List ShardWrite) (objects : Objects) : Objects :=
  writes.foldl
    (fun held write =>
      if (held write.key).isSome then held
      else Function.update held write.key (some write.contents))
    objects

def inShard (shard : UInt8) (name : RefName) : Bool := h.shardKey name = shard

def shardPart (shard : UInt8) (refs : RefMap) : RefMap := Dict.restrict (inShard h shard) refs

def occupiedShards (refs : RefMap) : List UInt8 :=
  ((Dict.sortedKeys refs).map h.shardKey).dedup.insertionSort (· ≤ ·)

def reshardWrite (refs : RefMap) (shard : UInt8) : ShardWrite :=
  let contents := encodeRefs (shardPart h shard refs)
  ⟨shard, refShardKey (h.contentHash contents), h.contentHash contents, contents⟩

def reshardEntry (refs : RefMap) (shard : UInt8) : RefShard :=
  let hash := h.contentHash (encodeRefs (shardPart h shard refs))
  ⟨shard, refShardKey hash, hash, (shardPart h shard refs).keys.card⟩

/-- The shard objects and entries `maintenance.Reshard` builds from an inline map. -/
def reshard (refs : RefMap) : List ShardWrite × List RefShard :=
  ((occupiedShards h refs).map (reshardWrite h refs),
    (occupiedShards h refs).map (reshardEntry h refs))

/-! What a sharded layout stands for. `Lays` relates shard entries and the objects they name
to one ref map; staging an update and resharding an inline map both preserve it. -/

/-- Every shard holds exactly its part of `target`, and every ref has its shard. -/
structure Lays (h : Hashing) (objects : Objects) (shards : List RefShard) (target : RefMap) :
    Prop where
  distinct : (shards.map RefShard.shard).Nodup
  fetched : ∀ ref ∈ shards, fetchShard h objects ref = .ok (shardPart h ref.shard target)
  covered : ∀ name ∈ target, ∃ ref ∈ shards, ref.shard = h.shardKey name

/-- Shard objects sit under the hash of their content and are never empty. -/
def Addressed (h : Hashing) (objects : Objects) : Prop :=
  ∀ key contents, objects key = some contents →
    key = refShardKey (h.contentHash contents) ∧ contents ≠ []

def Grows (before after : Objects) : Prop :=
  ∀ key contents, before key = some contents → after key = some contents

variable {h : Hashing} {objects after : Objects}

theorem Grows.refl (objects : Objects) : Grows objects objects := fun _ _ held => held

theorem Grows.trans {middle : Objects} (first : Grows objects middle)
    (second : Grows middle after) : Grows objects after :=
  fun key contents held => second key contents (first key contents held)

theorem lookup_shardPart (h : Hashing) (shard : UInt8) (refs : RefMap) (name : RefName) :
    (shardPart h shard refs).lookup name =
      if h.shardKey name = shard then refs.lookup name else none := by
  simp [shardPart, lookup_restrict, inShard]

variable {shard : UInt8} {refs : RefMap} {name : RefName} {ref : RefShard} {contents : Members}
  {shards : List RefShard} {part : RefShard → RefMap} {target : RefMap} {writes : List ShardWrite}
  {updates : Updates} {body : Body} {next : List RefShard}

theorem mem_shardPart : name ∈ shardPart h shard refs ↔ h.shardKey name = shard ∧ name ∈ refs := by
  rw [mem_iff, mem_iff, lookup_shardPart]
  by_cases same : h.shardKey name = shard <;> simp [same]

theorem fetchShard_ok (fetched : fetchShard h objects ref = .ok refs) :
    ∃ contents, objects ref.key = some contents ∧ h.contentHash contents = ref.hash ∧
      refs = decodeRefs contents := by
  unfold fetchShard at fetched
  split at fetched
  · cases fetched
  · next contents held =>
      split at fetched
      · next same => exact ⟨contents, held, same, (Except.ok.inj fetched).symm⟩
      · cases fetched

theorem fetchShard_of_held (held : objects ref.key = some contents)
    (same : h.contentHash contents = ref.hash) :
    fetchShard h objects ref = .ok (decodeRefs contents) := by
  simp [fetchShard, held, same]

theorem fetchShard_grows (grows : Grows objects after)
    (fetched : fetchShard h objects ref = .ok refs) : fetchShard h after ref = .ok refs := by
  obtain ⟨contents, held, same, rfl⟩ := fetchShard_ok fetched
  exact fetchShard_of_held (grows _ _ held) same

theorem listShards_of_fetched (fetched : ∀ ref ∈ shards, fetchShard h objects ref = .ok (part ref))
    (out : RefMap) :
    listShards h objects shards out = .ok (shards.foldl (fun out ref => part ref ∪ out) out) := by
  induction shards generalizing out with
  | nil => rfl
  | cons ref rest ih =>
    have here := fetched ref mem_cons_self
    have later := ih (fun other member => fetched other (mem_cons_of_mem _ member))
    simp [listShards, here, later]

theorem lookup_foldl_shardPart (shards : List RefShard) (target out : RefMap) (name : RefName) :
    (shards.foldl (fun out ref => shardPart h ref.shard target ∪ out) out).lookup name =
      if h.shardKey name ∈ shards.map RefShard.shard then
        (target.lookup name).or (out.lookup name)
      else out.lookup name := by
  induction shards generalizing out with
  | nil => rfl
  | cons ref rest ih =>
    rw [foldl_cons, ih, lookup_union, lookup_shardPart]
    by_cases same : h.shardKey name = ref.shard
    · cases target.lookup name <;> simp [same]
    · simp [same]

theorem Lays.list (lays : Lays h objects shards target) :
    listShards h objects shards ∅ = .ok target := by
  rw [listShards_of_fetched lays.fetched]
  congr 1
  apply ext_lookup
  intro name
  rw [lookup_foldl_shardPart]
  by_cases member : name ∈ target
  · obtain ⟨ref, inside, same⟩ := lays.covered name member
    have shard : h.shardKey name ∈ shards.map RefShard.shard :=
      List.mem_map.mpr ⟨ref, inside, same⟩
    simp [shard]
  · simp [lookup_eq_none.mpr member]

/-! Writing shard objects. -/

/-- A write goes to the address of its content. -/
structure ShardWrite.WellFormed (h : Hashing) (write : ShardWrite) : Prop where
  addressed : write.key = refShardKey (h.contentHash write.contents)
  nonempty : write.contents ≠ []

section

variable (addressed : Addressed h objects)
include addressed

theorem Addressed.unique {held : Members}
    (stored : objects (refShardKey (h.contentHash contents)) = some held) : held = contents := by
  have same := refShardKey_injective (addressed _ _ stored).1
  exact (h.contentHash_injective same).symm

theorem putShard_spec {write : ShardWrite} (wellFormed : write.WellFormed h) :
    Addressed h (putShards [write] objects) ∧ Grows objects (putShards [write] objects) ∧
      putShards [write] objects write.key = some write.contents := by
  simp only [putShards, foldl_cons, foldl_nil]
  by_cases present : (objects write.key).isSome = true
  · rw [if_pos present]
    obtain ⟨held, stored⟩ := Option.isSome_iff_exists.mp present
    refine ⟨addressed, .refl objects, ?_⟩
    rw [wellFormed.addressed] at stored ⊢
    rw [stored, addressed.unique stored]
  · rw [if_neg present]
    have absent : objects write.key = none := by simpa using present
    refine ⟨?_, ?_, update_self ..⟩
    · intro key contents stored
      by_cases same : key = write.key
      · subst same
        rw [update_self] at stored
        cases stored
        exact ⟨wellFormed.addressed, wellFormed.nonempty⟩
      · rw [update_of_ne same] at stored
        exact addressed key contents stored
    · intro key contents stored
      have different : key ≠ write.key := by
        rintro rfl
        simp [absent] at stored
      rw [update_of_ne different]
      exact stored

theorem putShards_spec (wellFormed : ∀ write ∈ writes, write.WellFormed h) :
    Addressed h (putShards writes objects) ∧ Grows objects (putShards writes objects) ∧
      ∀ write ∈ writes, putShards writes objects write.key = some write.contents := by
  induction writes generalizing objects with
  | nil => exact ⟨addressed, .refl objects, by simp⟩
  | cons write rest ih =>
    obtain ⟨updated, extended, own⟩ := putShard_spec addressed (wellFormed write mem_cons_self)
    obtain ⟨still, grows, put⟩ :=
      ih updated fun other member => wellFormed other (mem_cons_of_mem _ member)
    refine ⟨still, extended.trans grows, ?_⟩
    intro other member
    rcases mem_cons.mp member with rfl | inside
    · exact grows _ _ own
    · exact put other inside

/-! Applying updates. -/

end

theorem lookup_applyUpdate (refs : RefMap) (update : RefName × OID) (name : RefName) :
    (applyUpdate refs update).lookup name =
      if name = update.1 then (if deletes update.2 then none else some update.2)
      else refs.lookup name := by
  unfold applyUpdate
  by_cases same : name = update.1
  · subst same
    split <;> simp_all
  · split <;> simp [same]

theorem shardPart_applyUpdate (shard : UInt8) (refs : RefMap) (update : RefName × OID) :
    shardPart h shard (applyUpdate refs update) =
      if h.shardKey update.1 = shard then applyUpdate (shardPart h shard refs) update
      else shardPart h shard refs := by
  apply ext_lookup
  intro name
  by_cases here : h.shardKey update.1 = shard <;> by_cases same : name = update.1 <;>
    simp [lookup_shardPart, lookup_applyUpdate, same, here]

theorem shardPart_applyUpdates (updates : Updates) (shard : UInt8) (refs : RefMap) :
    shardPart h shard (applyUpdates updates refs) =
      applyUpdates (updatesOf h updates shard) (shardPart h shard refs) := by
  induction updates generalizing refs with
  | nil => rfl
  | cons update rest ih =>
    have step : applyUpdates (update :: rest) refs = applyUpdates rest (applyUpdate refs update) :=
      rfl
    rw [step, ih, shardPart_applyUpdate]
    by_cases here : h.shardKey update.1 = shard <;> simp [updatesOf, here, applyUpdates]

theorem applyUpdates_append (updates more : Updates) (refs : RefMap) :
    applyUpdates (updates ++ more) refs = applyUpdates more (applyUpdates updates refs) :=
  foldl_append

theorem lookup_applyUpdates_of_not_mem (unnamed : name ∉ updates.map Prod.fst) :
    (applyUpdates updates refs).lookup name = refs.lookup name := by
  induction updates generalizing refs with
  | nil => rfl
  | cons update rest ih =>
    simp only [map_cons, mem_cons, not_or] at unnamed
    calc
      _ = (applyUpdates rest (applyUpdate refs update)).lookup name := rfl
      _ = (applyUpdate refs update).lookup name := ih unnamed.2
      _ = refs.lookup name := by rw [lookup_applyUpdate, if_neg unnamed.1]

theorem lookup_applyUpdates_of_mem {update : RefName × OID}
    (distinct : (updates.map Prod.fst).Nodup) (member : update ∈ updates) :
    (applyUpdates updates refs).lookup update.1 =
      if deletes update.2 then none else some update.2 := by
  induction updates generalizing refs with
  | nil => cases member
  | cons first rest ih =>
    simp only [map_cons, nodup_cons] at distinct
    rcases mem_cons.mp member with rfl | later
    · calc
        _ = (applyUpdates rest (applyUpdate refs update)).lookup update.1 := rfl
        _ = (applyUpdate refs update).lookup update.1 :=
          lookup_applyUpdates_of_not_mem distinct.1
        _ = _ := by rw [lookup_applyUpdate, if_pos rfl]
    · exact ih distinct.2 later

/-- Every name an update sets is UTF-8; the names it deletes may be anything. -/
def ValidUpserts (updates : Updates) : Prop :=
  ∀ update ∈ updates, deletes update.2 = false → Utf8.Valid update.1

theorem valid_applyUpdates (stable : ∀ name ∈ refs, Utf8.Valid name) (valid : ValidUpserts updates) :
    ∀ name ∈ applyUpdates updates refs, Utf8.Valid name := by
  induction updates generalizing refs with
  | nil => exact stable
  | cons update rest ih =>
    refine ih ?_ fun other member => valid other (mem_cons_of_mem _ member)
    intro name member
    obtain ⟨oid, found⟩ := mem_iff.mp member
    rw [lookup_applyUpdate] at found
    by_cases same : name = update.1
    · rw [if_pos same] at found
      have kept : deletes update.2 = false := by
        by_contra gone
        simp [gone] at found
      exact same ▸ valid update mem_cons_self kept
    · rw [if_neg same] at found
      exact stable name (mem_of_lookup_eq_some found)

/-! Staging on a sharded layout. -/

def Resolves (h : Hashing) (objects : Objects) (shards : List RefShard) : Prop :=
  ∀ ref ∈ shards, ∃ contents, objects ref.key = some contents ∧ h.contentHash contents = ref.hash

theorem Lays.resolves (lays : Lays h objects shards target) : Resolves h objects shards := by
  intro ref member
  obtain ⟨contents, held, same, -⟩ := fetchShard_ok (lays.fetched ref member)
  exact ⟨contents, held, same⟩

theorem Resolves.grows (resolves : Resolves h objects shards) (grows : Grows objects after) :
    Resolves h after shards := by
  intro ref member
  obtain ⟨contents, held, same⟩ := resolves ref member
  exact ⟨contents, grows _ _ held, same⟩

theorem Resolves.fetched (resolves : Resolves h objects shards) :
    ∃ part : RefShard → RefMap, ∀ ref ∈ shards, fetchShard h objects ref = .ok (part ref) := by
  refine ⟨fun ref => decodeRefs ((objects ref.key).getD []), ?_⟩
  intro ref member
  obtain ⟨contents, held, same⟩ := resolves ref member
  simp [fetchShard_of_held held same, held]

theorem Lays.earlier (lays : Lays h after shards target) (resolves : Resolves h objects shards)
    (grows : Grows objects after) : Lays h objects shards target := by
  refine ⟨lays.distinct, ?_, lays.covered⟩
  intro ref member
  obtain ⟨part, fetched⟩ := resolves.fetched
  have later := fetchShard_grows grows (fetched ref member)
  rw [fetched ref member, ← later]
  exact lays.fetched ref member

theorem list_grows (grows : Grows objects after) (resolves : Resolves h objects body.refShards)
    (listed : RefStore.list h objects body = .ok refs) : RefStore.list h after body = .ok refs := by
  unfold RefStore.list at listed ⊢
  split
  · next inline => rwa [if_pos inline] at listed
  · next sharded =>
      rw [if_neg sharded] at listed
      split at listed
      · next supported =>
          rw [if_pos supported]
          obtain ⟨part, fetched⟩ := resolves.fetched
          rw [listShards_of_fetched fetched] at listed
          rw [listShards_of_fetched fun ref member => fetchShard_grows grows (fetched ref member)]
          exact listed
      · cases listed

section

variable (valid : validateBody body = .ok ())
include valid

theorem supported_of_valid (sharded : body.refShards ≠ []) :
    isSupportedRefSharding body.refSharding = true := by
  rcases validateBody_ok valid with ⟨inline, -⟩ | ⟨-, -, tagged⟩
  · exact absurd inline sharded
  · simp [isSupportedRefSharding, tagged]

theorem list_sharded (sharded : body.refShards ≠ []) :
    RefStore.list h objects body = listShards h objects body.refShards ∅ := by
  unfold RefStore.list
  rw [if_neg sharded, if_pos (supported_of_valid valid sharded)]

theorem list_of_resolves (resolves : Resolves h objects body.refShards) :
    ∃ refs, RefStore.list h objects body = .ok refs := by
  by_cases inline : body.refShards = []
  · exact ⟨body.refs, if_pos inline⟩
  · obtain ⟨part, fetched⟩ := resolves.fetched
    exact ⟨_, (list_sharded valid inline).trans (listShards_of_fetched fetched ∅)⟩

end

theorem list_inline (inline : body.refShards = []) :
    RefStore.list h objects body = .ok body.refs := if_pos inline

theorem Lays.list_body (valid : validateBody body = .ok ()) (sharded : body.refShards ≠ [])
    (lays : Lays h objects body.refShards target) : RefStore.list h objects body = .ok target :=
  (list_sharded valid sharded).trans lays.list

theorem mem_foldl_union {out : RefMap} :
    name ∈ shards.foldl (fun out ref => part ref ∪ out) out ↔
      name ∈ out ∨ ∃ ref ∈ shards, name ∈ part ref := by
  induction shards generalizing out with
  | nil => simp
  | cons first rest ih =>
    rw [foldl_cons, ih, mem_union]
    simp only [mem_cons, exists_eq_or_imp]
    tauto

/-- No sharded body lists as empty: shard objects are never empty. -/
theorem list_ne_empty (addressed : Addressed h objects)
    (resolves : Resolves h objects body.refShards) (sharded : body.refShards ≠ [])
    (listed : RefStore.list h objects body = .ok refs) : refs ≠ ∅ := by
  unfold RefStore.list at listed
  rw [if_neg sharded] at listed
  split at listed
  · obtain ⟨part, fetched⟩ := resolves.fetched
    rw [listShards_of_fetched fetched] at listed
    cases listed
    obtain ⟨ref, member⟩ := exists_mem_of_ne_nil _ sharded
    obtain ⟨contents, held, -, decoded⟩ := fetchShard_ok (fetched ref member)
    obtain ⟨entry, inside⟩ := exists_mem_of_ne_nil _ (addressed _ _ held).2
    have present : entry.1 ∈ part ref := by
      rw [decoded]
      exact mem_insertAll.mpr (.inl (List.mem_map_of_mem inside))
    intro empty
    have listedName : entry.1 ∈ body.refShards.foldl (fun out ref => part ref ∪ out) ∅ :=
      mem_foldl_union.mpr (.inr ⟨ref, member, present⟩)
    rw [empty] at listedName
    exact absurd listedName notMem_empty
  · cases listed

theorem encodeRefs_ne_nil (nonempty : refs ≠ ∅) : encodeRefs refs ≠ [] := by
  intro empty
  apply nonempty
  have none : Dict.entries refs = [] := map_eq_nil_iff.mp empty
  rw [← insertAll_entries refs, none]
  rfl

theorem existingShard_some (found : existingShard shards shard = some ref) :
    ref ∈ shards ∧ ref.shard = shard :=
  ⟨List.mem_of_find?_eq_some found, by simpa using List.find?_some found⟩

def Stored (after : Objects) (write : Option ShardWrite) : Prop :=
  ∀ w, write = some w → after w.key = some w.contents

theorem writeShard_spec (resolves : Resolves h objects shards) (shard : UInt8) (nonempty : refs ≠ ∅) :
    (writeShard h shards shard refs).1.shard = shard ∧
    (∀ w, (writeShard h shards shard refs).2 = some w → w.WellFormed h) ∧
    (∀ after, Grows objects after → Stored after (writeShard h shards shard refs).2 →
      after (writeShard h shards shard refs).1.key = some (encodeRefs refs) ∧
        h.contentHash (encodeRefs refs) = (writeShard h shards shard refs).1.hash) := by
  have fresh : ShardWrite.WellFormed h ⟨shard, refShardKey (h.contentHash (encodeRefs refs)),
      h.contentHash (encodeRefs refs), encodeRefs refs⟩ := ⟨rfl, encodeRefs_ne_nil nonempty⟩
  unfold writeShard
  cases found : existingShard shards shard with
  | none =>
    refine ⟨rfl, ?_, ?_⟩
    · intro w same
      cases same
      exact fresh
    · intro after _ stored
      exact ⟨stored _ rfl, rfl⟩
  | some ref =>
    by_cases unchanged : ref.hash = h.contentHash (encodeRefs refs)
    · simp only [unchanged, if_true]
      refine ⟨trivial, by simp, ?_⟩
      intro after grows _
      obtain ⟨contents, held, same⟩ := resolves ref (existingShard_some found).1
      have identical := h.contentHash_injective (same.trans unchanged)
      exact ⟨identical ▸ grows _ _ held, trivial⟩
    · simp only [unchanged, if_false]
      refine ⟨trivial, ?_, ?_⟩
      · intro w same
        cases same
        exact fresh
      · intro after _ stored
        exact ⟨stored _ rfl, trivial⟩

def StagedRefs (h : Hashing) (objects : Objects) (shards : List RefShard) (updates : Updates)
    (shard : UInt8) (refs : RefMap) : Prop :=
  ∃ loaded, loadShard h objects shards shard = .ok loaded ∧
    refs = applyUpdates (updatesOf h updates shard) loaded

theorem stageShard_ok {result : Option (RefShard × Option ShardWrite)}
    (staged : stageShard h objects shards updates shard = .ok result) :
    ∃ refs, StagedRefs h objects shards updates shard refs ∧
      ((refs = ∅ ∧ result = none) ∨
        (refs ≠ ∅ ∧ result = some (writeShard h shards shard refs))) := by
  unfold stageShard at staged
  cases loading : loadShard h objects shards shard with
  | error e => simp [loading] at staged
  | ok loaded =>
    simp only [loading, bind, Except.bind] at staged
    refine ⟨_, ⟨loaded, loading, rfl⟩, ?_⟩
    split at staged
    · next empty => exact .inl ⟨empty, (Except.ok.inj staged).symm⟩
    · next nonempty => exact .inr ⟨nonempty, (Except.ok.inj staged).symm⟩

/-- What `stageSharded` returns, shard by shard. -/
structure Staged (h : Hashing) (objects : Objects) (shards : List RefShard) (updates : Updates)
    (writes : List ShardWrite) (next : List RefShard) : Prop where
  wellFormed : ∀ w ∈ writes, w.WellFormed h
  distinct : (shards.map RefShard.shard).Nodup → (next.map RefShard.shard).Nodup
  kept : ∀ ref ∈ next, ref.shard ∉ changedShards h updates → ref ∈ shards
  untouched : ∀ ref ∈ shards, ref.shard ∉ changedShards h updates → ref ∈ next
  rewritten : ∀ ref ∈ next, ref.shard ∈ changedShards h updates →
    ∃ refs, StagedRefs h objects shards updates ref.shard refs ∧ refs ≠ ∅ ∧
      ∀ after, Grows objects after → (∀ w ∈ writes, after w.key = some w.contents) →
        after ref.key = some (encodeRefs refs) ∧ h.contentHash (encodeRefs refs) = ref.hash
  present : ∀ shard ∈ changedShards h updates,
    ∃ refs, StagedRefs h objects shards updates shard refs ∧
      (refs ≠ ∅ → ∃ ref ∈ next, ref.shard = shard)

theorem mem_changedShards :
    shard ∈ changedShards h updates ↔ ∃ update ∈ updates, h.shardKey update.1 = shard := by
  simp [changedShards]

theorem nodup_changedShards (updates : Updates) : (changedShards h updates).Nodup :=
  (perm_insertionSort _ _).nodup_iff.mpr (nodup_dedup _)

section

variable (resolves : Resolves h objects shards)
include resolves

theorem sublist_rewritten {changed : List UInt8}
    {results : List (Option (RefShard × Option ShardWrite))}
    (staged : Forall₂ (fun shard result => stageShard h objects shards updates shard = .ok result)
      changed results) :
    ((results.filterMap id).map fun entry => entry.1.shard).Sublist changed := by
  induction staged with
  | nil => exact .slnil
  | @cons shard result changed results first rest ih =>
    obtain ⟨refs, -, ⟨-, rfl⟩ | ⟨nonempty, rfl⟩⟩ := stageShard_ok first
    · exact ih.cons shard
    · have same := (writeShard_spec resolves shard nonempty).1
      simpa [same] using ih.cons_cons shard

theorem stageSharded_staged
    (staged : stageSharded h objects shards updates = .ok (.sharded writes next)) :
    Staged h objects shards updates writes next := by
  unfold stageSharded at staged
  split at staged
  · next none =>
      subst none
      cases staged
      have nothing : changedShards h [] = [] := rfl
      refine ⟨by simp, id, fun _ member _ => member, fun _ member _ => member, ?_, ?_⟩ <;>
        simp [nothing]
  · cases mapped : (changedShards h updates).mapM (stageShard h objects shards updates) with
    | error e => simp [mapped] at staged
    | ok results =>
      simp only [mapped] at staged
      obtain ⟨rfl, rfl⟩ := staged
      have each := Lists.forall₂_of_mapM mapped
      have inNext : ∀ ref, ref ∈ ((results.filterMap id).map Prod.fst ++
          shards.filter fun ref => ref.shard ∉ changedShards h updates).insertionSort
            (fun left right => left.shard ≤ right.shard) ↔
          (∃ entry, some entry ∈ results ∧ entry.1 = ref) ∨
            (ref ∈ shards ∧ ref.shard ∉ changedShards h updates) := by
        intro ref
        simp
      have source : ∀ entry, some entry ∈ results →
          ∃ shard ∈ changedShards h updates, ∃ refs,
            StagedRefs h objects shards updates shard refs ∧ refs ≠ ∅ ∧
              entry = writeShard h shards shard refs := by
        intro entry member
        obtain ⟨shard, inside, ok⟩ := Lists.exists_of_mem_right each member
        obtain ⟨refs, stagedRefs, ⟨-, absent⟩ | ⟨nonempty, same⟩⟩ := stageShard_ok ok
        · cases absent
        · exact ⟨shard, inside, refs, stagedRefs, nonempty, Option.some.inj same⟩
      refine ⟨?_, ?_, ?_, ?_, ?_, ?_⟩
      · intro w member
        obtain ⟨entry, inside, written⟩ := mem_filterMap.mp member
        obtain ⟨shard, -, refs, -, nonempty, rfl⟩ := source entry (by simpa using inside)
        exact (writeShard_spec resolves shard nonempty).2.1 w written
      · intro distinct
        have reordered := (perm_insertionSort
          (fun left right : RefShard => left.shard ≤ right.shard)
          ((results.filterMap id).map Prod.fst ++
            shards.filter fun ref => ref.shard ∉ changedShards h updates)).map RefShard.shard
        apply reordered.nodup_iff.mpr
        rw [map_append, List.map_map, nodup_append']
        have within := sublist_rewritten resolves each
        refine ⟨within.nodup (nodup_changedShards updates),
          (filter_sublist.map _).nodup distinct, ?_⟩
        intro shard changed untouched
        obtain ⟨ref, inside, rfl⟩ := List.mem_map.mp untouched
        simp only [mem_filter, decide_eq_true_eq] at inside
        exact inside.2 (within.subset changed)
      · intro ref member unchanged
        rcases (inNext ref).mp member with ⟨entry, inside, rfl⟩ | ⟨inside, -⟩
        · obtain ⟨shard, changed, refs, -, nonempty, rfl⟩ := source entry inside
          rw [(writeShard_spec resolves shard nonempty).1] at unchanged
          exact absurd changed unchanged
        · exact inside
      · intro ref member unchanged
        exact (inNext ref).mpr (.inr ⟨member, unchanged⟩)
      · intro ref member changed
        rcases (inNext ref).mp member with ⟨entry, inside, rfl⟩ | ⟨-, unchanged⟩
        · obtain ⟨shard, -, refs, stagedRefs, nonempty, rfl⟩ := source entry inside
          have spec := writeShard_spec resolves shard nonempty
          refine ⟨refs, spec.1.symm ▸ stagedRefs, nonempty, ?_⟩
          intro after grows stored
          refine spec.2.2 after grows ?_
          intro w written
          apply stored w
          exact mem_filterMap.mpr ⟨_, by simpa using inside, written⟩
        · exact absurd changed unchanged
      · intro shard changed
        obtain ⟨result, inside, ok⟩ := Lists.exists_of_mem_left each changed
        obtain ⟨refs, stagedRefs, outcome⟩ := stageShard_ok ok
        refine ⟨refs, stagedRefs, ?_⟩
        intro nonempty
        rcases outcome with ⟨empty, -⟩ | ⟨-, rfl⟩
        · exact absurd empty nonempty
        · exact ⟨_, (inNext _).mpr (.inl ⟨_, inside, rfl⟩),
            (writeShard_spec resolves shard nonempty).1⟩

theorem Resolves.staged
    (staged : Staged h objects shards updates writes next) (grows : Grows objects after)
    (stored : ∀ w ∈ writes, after w.key = some w.contents) : Resolves h after next := by
  intro ref member
  by_cases changed : ref.shard ∈ changedShards h updates
  · obtain ⟨refs, -, -, written⟩ := staged.rewritten ref member changed
    exact ⟨_, written after grows stored⟩
  · exact resolves.grows grows ref (staged.kept ref member changed)

end

theorem stage_ok {staged : Stage} (done : stage h objects body updates = .ok staged) :
    (body.refShards = [] ∧ staged = .inline (applyUpdates updates body.refs)) ∨
      (body.refShards ≠ [] ∧ ∃ writes next, staged = .sharded writes next ∧
        stageSharded h objects body.refShards updates = .ok (.sharded writes next)) := by
  unfold stage at done
  split at done
  · next inline => exact .inl ⟨inline, (Except.ok.inj done).symm⟩
  · next sharded =>
      split at done
      · refine .inr ⟨sharded, ?_⟩
        have shape := done
        unfold stageSharded at shape
        split at shape
        · cases shape
          exact ⟨_, _, rfl, done⟩
        · obtain ⟨results, -, rest⟩ := Results.bind_ok shape
          cases rest
          exact ⟨_, _, rfl, done⟩
      · cases done

theorem Lays.loadShard (lays : Lays h objects shards target) (shard : UInt8) :
    loadShard h objects shards shard = .ok (shardPart h shard target) := by
  unfold RefStore.loadShard
  cases found : existingShard shards shard with
  | some ref =>
    obtain ⟨member, same⟩ := existingShard_some found
    exact same ▸ lays.fetched ref member
  | none =>
    have empty : shardPart h shard target = ∅ := by
      by_contra nonempty
      obtain ⟨name, member⟩ := exists_mem_of_ne_empty nonempty
      obtain ⟨same, inside⟩ := mem_shardPart.mp member
      obtain ⟨ref, held, placed⟩ := lays.covered name inside
      have absent := List.find?_eq_none.mp found ref held
      simp [placed, same] at absent
    rw [empty]

/-- Staging an update of valid names moves a layout of `target` to a layout of the updated
map. -/
theorem Lays.staged (lays : Lays h objects shards target)
    (stable : ∀ name ∈ target, Utf8.Valid name) (valid : ValidUpserts updates)
    (staged : Staged h objects shards updates writes next) (grows : Grows objects after)
    (stored : ∀ w ∈ writes, after w.key = some w.contents) :
    Lays h after next (applyUpdates updates target) := by
  have updated := valid_applyUpdates stable valid
  have part (shard : UInt8) {refs : RefMap}
      (stagedRefs : StagedRefs h objects shards updates shard refs) :
      refs = shardPart h shard (applyUpdates updates target) := by
    obtain ⟨loaded, loading, rfl⟩ := stagedRefs
    rw [lays.loadShard] at loading
    cases loading
    rw [shardPart_applyUpdates]
  have still (shard : UInt8) (unchanged : shard ∉ changedShards h updates) :
      shardPart h shard (applyUpdates updates target) = shardPart h shard target := by
    have none : updatesOf h updates shard = [] := by
      apply filter_eq_nil_iff.mpr
      intro update member inside
      exact unchanged (mem_changedShards.mpr ⟨update, member, by simpa using inside⟩)
    rw [shardPart_applyUpdates, none]
    rfl
  refine ⟨staged.distinct lays.distinct, ?_, ?_⟩
  · intro ref member
    by_cases changed : ref.shard ∈ changedShards h updates
    · obtain ⟨refs, stagedRefs, -, written⟩ := staged.rewritten ref member changed
      obtain ⟨held, same⟩ := written after grows stored
      have whole := part ref.shard stagedRefs
      rw [fetchShard_of_held held same, decodeRefs_encodeRefs, whole]
      intro name inside
      rw [whole] at inside
      exact updated name (mem_shardPart.mp inside).2
    · rw [still ref.shard changed]
      exact fetchShard_grows grows (lays.fetched ref (staged.kept ref member changed))
  · intro name member
    by_cases changed : h.shardKey name ∈ changedShards h updates
    · obtain ⟨refs, stagedRefs, present⟩ := staged.present _ changed
      apply present
      intro empty
      have inside : name ∈ refs := by
        rw [part _ stagedRefs]
        exact mem_shardPart.mpr ⟨rfl, member⟩
      rw [empty] at inside
      exact absurd inside (notMem_empty)
    · have before : name ∈ target := by
        have inside : name ∈ shardPart h (h.shardKey name) (applyUpdates updates target) :=
          mem_shardPart.mpr ⟨rfl, member⟩
        rw [still _ changed] at inside
        exact (mem_shardPart.mp inside).2
      obtain ⟨ref, inside, placed⟩ := lays.covered name before
      exact ⟨ref, staged.untouched ref inside (placed ▸ changed), placed⟩

theorem lays_nil (lays : Lays h objects [] refs) : refs = ∅ := by
  by_contra nonempty
  obtain ⟨name, member⟩ := exists_mem_of_ne_empty nonempty
  obtain ⟨ref, inside, -⟩ := lays.covered name member
  cases inside

/-! Resharding an inline map. -/

theorem mem_occupiedShards :
    shard ∈ occupiedShards h refs ↔ ∃ name ∈ refs, h.shardKey name = shard := by
  simp [occupiedShards, mem_sortedKeys]

theorem reshard_wellFormed (refs : RefMap) : ∀ w ∈ (reshard h refs).1, w.WellFormed h := by
  intro w member
  obtain ⟨shard, occupied, rfl⟩ := List.mem_map.mp member
  obtain ⟨name, inside, placed⟩ := mem_occupiedShards.mp occupied
  refine ⟨rfl, encodeRefs_ne_nil ?_⟩
  intro empty
  have held : name ∈ shardPart h shard refs := mem_shardPart.mpr ⟨placed, inside⟩
  rw [empty] at held
  exact absurd held notMem_empty

theorem reshard_lays (stable : ∀ name ∈ refs, Utf8.Valid name)
    (stored : ∀ w ∈ (reshard h refs).1, after w.key = some w.contents) :
    Lays h after (reshard h refs).2 refs := by
  refine ⟨?_, ?_, ?_⟩
  · have ids : (reshard h refs).2.map RefShard.shard = occupiedShards h refs := by
      simp [reshard, reshardEntry, comp_def]
    rw [ids]
    exact (perm_insertionSort _ _).nodup_iff.mpr (nodup_dedup _)
  · intro ref member
    obtain ⟨shard, occupied, rfl⟩ := List.mem_map.mp member
    have held := stored (reshardWrite h refs shard) (List.mem_map.mpr ⟨shard, occupied, rfl⟩)
    have fetched : fetchShard h after (reshardEntry h refs shard) =
        .ok (decodeRefs (encodeRefs (shardPart h shard refs))) := fetchShard_of_held held rfl
    rw [fetched, decodeRefs_encodeRefs]
    · rfl
    · intro name inside
      exact stable name (mem_shardPart.mp inside).2
  · intro name member
    exact ⟨reshardEntry h refs (h.shardKey name),
      List.mem_map.mpr ⟨_, mem_occupiedShards.mpr ⟨name, member, rfl⟩, rfl⟩, rfl⟩

theorem reshard_ne_nil (nonempty : refs ≠ ∅) : (reshard h refs).2 ≠ [] := by
  intro none
  obtain ⟨name, member⟩ := exists_mem_of_ne_empty nonempty
  have occupied := mem_occupiedShards (h := h).mpr ⟨name, member, rfl⟩
  rw [map_eq_nil_iff.mp none] at occupied
  cases occupied

end BucketVcs.RefStore
