import Mathlib.Algebra.Ring.Int.Defs
import BucketVcs.Writers

/-! `exporter.Export`: a bare repository made from the current root and its packs. -/

namespace BucketVcs.Exporter

open Manifest RefStore RefNames Importer Results List Finmap Dict

structure Repository where
  refs : RefMap
  objects : Finset OID
  head : RefName
  deriving DecidableEq

/-- What is assumed of git and of the Go runtime: the order a map is visited in, the HEAD
of a new repository, and that `fsck` passes a repository that misses nothing. -/
structure Tools (git : Git) where
  order : RefMap → List (RefName × OID)
  visits : ∀ refs, (order refs).Perm (Dict.entries refs)
  initialHead : RefName
  fsck : Repository → Bool
  complete : ∀ repository : Repository,
    (∀ oid, Writers.ReachedFrom git repository.refs oid → oid ∈ repository.objects) →
      fsck repository = true

inductive Error where
  | body (cause : BodyError)
  | refStore (cause : RefStore.Error)
  | invalidPackID (id : PackID)
  | missingObject (key : Key)
  | invalidRefname (name : RefName)
  | invalidOID (name : RefName) (oid : OID)
  | rejectedRefname (name : RefName)
  | updateRef (name : RefName)
  | invalidDefaultBranch (name : RefName)
  | rejectedDefaultBranch (name : RefName)
  | missingDefaultBranch (name : RefName)
  | symbolicRef (name : RefName)
  | fsck
  deriving DecidableEq, Repr

structure Result where
  repository : Repository
  manifestVersion : Nat
  objectCount : Int
  fsckOK : Bool
  deriving DecidableEq

/-- `gitcli.validRefOrOID`: nothing git would read as an option or split. -/
def validRefOrOID (name : RefName) : Bool :=
  name ≠ [] && name.head? ≠ some 0x2D &&
    !name.any fun c => c = 0x20 || c = 0x09 || c = 0x0A || c = 0x0D || c = 0

def checkRefFormat (git : Git) (name : RefName) : Bool :=
  validRefOrOID name && git.checkRefFormat name

variable {git : Git} {name : RefName} {refs : RefMap} {repository result : Repository}
  {entries : List (RefName × OID)} {packs : Key → Option PackID} {branch : RefName} {h : Hashing}
  {tools : Tools git} {objects : Objects} {root : Root}

def initBare (tools : Tools git) : Repository := ⟨∅, ∅, tools.initialHead⟩

/-- The `.bitmap` sidecar that may follow is an accelerator; a missing one is skipped. -/
def downloadAndIndexPack (git : Git) (packs : Key → Option PackID) (repository : Repository)
    (pack : PackEntry) : Except Error Repository := do
  require (validOID pack.packID) (.invalidPackID pack.packID)
  match packs pack.packKey with
  | none => .error (.missingObject pack.packKey)
  | some id => .ok { repository with objects := repository.objects ∪ git.contents id }

def conflicts (refs : RefMap) (name : RefName) : Bool :=
  (Dict.entries refs).any fun entry => directoryOf entry.1 name || directoryOf name entry.1

def updateRef (repository : Repository) (name : RefName) (oid : OID) : Except Error Repository :=
  if validRefOrOID name && !conflicts repository.refs name then
    .ok { repository with refs := repository.refs.insert name oid }
  else .error (.updateRef name)

def exportRef (git : Git) (repository : Repository) (entry : RefName × OID) :
    Except Error Repository := do
  require (validRefName entry.1) (.invalidRefname entry.1)
  require (validOID entry.2) (.invalidOID entry.1 entry.2)
  require (checkRefFormat git entry.1) (.rejectedRefname entry.1)
  updateRef repository entry.1 entry.2

/-- HEAD is set to the default branch, which has to exist once there are refs. -/
def setHead (git : Git) (branch : RefName) (refs : RefMap) (repository : Repository) :
    Except Error Repository :=
  if branch = [] then .ok repository
  else do
    require (validRefName branch) (.invalidDefaultBranch branch)
    require (checkRefFormat git branch) (.rejectedDefaultBranch branch)
    require (refs = ∅ || (refs.lookup branch).isSome) (.missingDefaultBranch branch)
    require (validRefOrOID branch) (.symbolicRef branch)
    .ok { repository with head := branch }

def exportRepository (h : Hashing) (tools : Tools git) (packs : Key → Option PackID)
    (objects : Objects) (root : Root) (skipFsck : Bool) : Except Error Result := do
  let body ← (unmarshalBody root.body).mapError .body
  let refs ← (RefStore.list h objects body).mapError .refStore
  let filled ← body.packs.foldlM (downloadAndIndexPack git packs) (initBare tools)
  let named ← (tools.order refs).foldlM (exportRef git) filled
  let repository ← setHead git body.defaultBranch refs named
  let objectCount := (body.packs.map PackEntry.objectCount).sum
  if skipFsck then .ok ⟨repository, root.manifestVersion, objectCount, false⟩
  else do
    require (tools.fsck repository) .fsck
    .ok ⟨repository, root.manifestVersion, objectCount, true⟩

/-! When each step succeeds. -/

theorem not_directoryOf_self (name : RefName) : directoryOf name name = false := by
  rw [Bool.eq_false_iff]
  intro isParent
  have length := (List.isPrefixOf_iff_prefix.mp isParent).length_le
  rw [length_append, length_singleton] at length
  omega

theorem validRefOrOID_of_valid (valid : validRefName name = true) : validRefOrOID name = true := by
  simp only [validRefName, Bool.and_eq_true, Bool.not_eq_true'] at valid
  obtain ⟨⟨⟨rooted, -⟩, -⟩, bytes⟩ := valid
  obtain ⟨rest, rfl⟩ := isPrefixOf_iff_prefix.mp rooted
  have printable : ∀ c ∈ refsSlash ++ rest, forbiddenByte c = false := by
    simpa only [any_eq_false, Bool.not_eq_true] using bytes
  have separators : ∀ c : UInt8, forbiddenByte c = false →
      ¬ (c = 0x20 ∨ c = 0x09 ∨ c = 0x0A ∨ c = 0x0D ∨ c = 0) := by
    rintro c allowed (rfl | rfl | rfl | rfl | rfl) <;> exact absurd allowed (by decide)
  simp only [validRefOrOID, Bool.and_eq_true, Bool.not_eq_true', any_eq_false]
  refine ⟨⟨by simp [refsSlash], by simp [refsSlash]⟩, fun c member => ?_⟩
  have apart := separators c (printable c member)
  simpa [or_assoc] using apart

/-- A ref the exporter takes. -/
structure WellFormed (git : Git) (name : RefName) (oid : OID) : Prop where
  valid : validRefName name = true
  hex : validOID oid = true
  accepted : git.checkRefFormat name = true

theorem conflicts_iff :
    conflicts refs name = false ↔
      ∀ other ∈ refs, directoryOf other name = false ∧ directoryOf name other = false := by
  simp only [conflicts, any_eq_false, Bool.not_eq_true, Bool.or_eq_false_iff]
  constructor
  · intro apart other member
    obtain ⟨oid, found⟩ := mem_iff.mp member
    exact apart (other, oid) ((mem_entries refs other oid).mpr found)
  · rintro apart ⟨other, oid⟩ member
    exact apart other (mem_of_lookup_eq_some ((mem_entries refs other oid).mp member))

theorem coexist_insert (coexist : Coexist refs) {oid : OID} :
    Coexist (refs.insert name oid) ↔ conflicts refs name = false := by
  rw [conflicts_iff]
  constructor
  · intro all other member
    have here : name ∈ refs.insert name oid := mem_insert.mpr (.inl rfl)
    have there : other ∈ refs.insert name oid := mem_insert.mpr (.inr member)
    exact ⟨all other there name here, all name here other there⟩
  · intro apart parent above child below
    rcases mem_insert.mp above with rfl | old
    · rcases mem_insert.mp below with rfl | other
      · exact not_directoryOf_self _
      · exact (apart child other).2
    · rcases mem_insert.mp below with rfl | other
      · exact (apart parent old).1
      · exact coexist parent old child other

theorem exportRef_ok_iff {entry : RefName × OID} (coexist : Coexist repository.refs) :
    exportRef git repository entry = .ok result ↔ WellFormed git entry.1 entry.2 ∧
      Coexist (repository.refs.insert entry.1 entry.2) ∧
      result = { repository with refs := repository.refs.insert entry.1 entry.2 } := by
  rw [coexist_insert coexist]
  unfold exportRef checkRefFormat updateRef
  simp only [require_bind_ok_iff, Bool.and_eq_true]
  constructor
  · rintro ⟨valid, hex, ⟨-, accepted⟩, made⟩
    split at made
    · next free =>
        simp only [Bool.not_eq_true'] at free
        exact ⟨⟨valid, hex, accepted⟩, free.2, (Except.ok.inj made).symm⟩
    · cases made
  · rintro ⟨wellFormed, free, rfl⟩
    have argument := validRefOrOID_of_valid wellFormed.valid
    refine ⟨wellFormed.valid, wellFormed.hex, ⟨argument, wellFormed.accepted⟩, ?_⟩
    rw [if_pos (by simp [argument, free])]

theorem Coexist.of_insertAll (coexist : Coexist (insertAll entries refs)) : Coexist refs := by
  intro parent above child below
  exact coexist parent (mem_insertAll.mpr (.inr above)) child
    (mem_insertAll.mpr (.inr below))

/-- The refs go in, in whatever order they are visited, if each is well formed and none
stands in the way of another. -/
theorem exportRefs_ok_iff (coexist : Coexist repository.refs) :
    entries.foldlM (exportRef git) repository = .ok result ↔
      (∀ entry ∈ entries, WellFormed git entry.1 entry.2) ∧
      Coexist (insertAll entries repository.refs) ∧
      result = { repository with refs := insertAll entries repository.refs } := by
  induction entries generalizing repository with
  | nil => simp [insertAll, pure, Except.pure, coexist, eq_comm]
  | cons entry rest ih =>
    have unfolded : insertAll (entry :: rest) repository.refs =
        insertAll rest (repository.refs.insert entry.1 entry.2) := rfl
    rw [foldlM_cons, bind_ok_iff, unfolded, forall_mem_cons]
    constructor
    · rintro ⟨middle, here, later⟩
      obtain ⟨wellFormed, apart, rfl⟩ := (exportRef_ok_iff coexist).mp here
      obtain ⟨others, all, rfl⟩ := (ih apart).mp later
      exact ⟨⟨wellFormed, others⟩, all, rfl⟩
    · rintro ⟨⟨wellFormed, others⟩, all, rfl⟩
      have apart := Coexist.of_insertAll all
      exact ⟨_, (exportRef_ok_iff coexist).mpr ⟨wellFormed, apart, rfl⟩,
        (ih apart).mpr ⟨others, all, rfl⟩⟩

variable {entries : List PackEntry}

theorem indexPacks_ok (git : Git) (stored : ∀ pack ∈ entries,
      validOID pack.packID = true ∧ packs pack.packKey = some pack.packID) (repository : Repository) :
    ∃ objects, entries.foldlM (downloadAndIndexPack git packs) repository =
        .ok { repository with objects := objects } ∧
      ∀ oid, oid ∈ objects ↔
        oid ∈ repository.objects ∨ ∃ pack ∈ entries, oid ∈ git.contents pack.packID := by
  induction entries generalizing repository with
  | nil => exact ⟨repository.objects, rfl, by simp⟩
  | cons pack rest ih =>
    obtain ⟨⟨hex, held⟩, others⟩ := forall_mem_cons.mp stored
    have here : downloadAndIndexPack git packs repository pack =
        .ok { repository with objects := repository.objects ∪ git.contents pack.packID } := by
      simp only [downloadAndIndexPack, require_bind_ok_iff, held]
      exact ⟨hex, trivial⟩
    obtain ⟨objects, later, members⟩ := ih others
      { repository with objects := repository.objects ∪ git.contents pack.packID }
    refine ⟨objects, ?_, fun oid => ?_⟩
    · rw [foldlM_cons, here]
      exact later
    · rw [members oid]
      simp [or_assoc]

theorem setHead_ok_iff (named : branch ≠ []) :
    setHead git branch refs repository = .ok result ↔
      (validRefName branch = true ∧ git.checkRefFormat branch = true ∧
        (refs = ∅ ∨ branch ∈ refs)) ∧ result = { repository with head := branch } := by
  simp only [setHead, if_neg named, checkRefFormat, require_bind_ok_iff, Bool.and_eq_true,
    Bool.or_eq_true, decide_eq_true_eq, lookup_isSome]
  constructor
  · rintro ⟨valid, ⟨-, accepted⟩, present, -, made⟩
    exact ⟨⟨valid, accepted, present⟩, (Except.ok.inj made).symm⟩
  · rintro ⟨⟨valid, accepted, present⟩, rfl⟩
    have argument := validRefOrOID_of_valid valid
    exact ⟨valid, ⟨argument, accepted⟩, present, argument, rfl⟩

/-- The refs and default branch of a root the exporter can make a repository of. -/
structure Presentable (git : Git) (branch : RefName) (refs : RefMap) : Prop where
  wellFormed : ∀ name oid, refs.lookup name = some oid → WellFormed git name oid
  coexist : Coexist refs
  valid : validRefName branch = true
  accepted : git.checkRefFormat branch = true
  present : refs = ∅ ∨ branch ∈ refs

def Served (h : Hashing) (tools : Tools git) (packs : Key → Option PackID) (objects : Objects)
    (root : Root) : Prop :=
  ∃ result, exportRepository h tools packs objects root false = .ok result ∧
    RefStore.list h objects root.body = .ok result.repository.refs ∧
    result.repository.head = root.body.defaultBranch

theorem export_ok_iff {filled : Repository} {result : Result}
    (valid : validateBody root.body = .ok ()) (listed : list h objects root.body = .ok refs)
    (indexed : root.body.packs.foldlM (downloadAndIndexPack git packs) (initBare tools) = .ok filled) :
    exportRepository h tools packs objects root false = .ok result ↔
      ∃ named repository, (tools.order refs).foldlM (exportRef git) filled = .ok named ∧
        setHead git root.body.defaultBranch refs named = .ok repository ∧
        tools.fsck repository = true ∧ result = ⟨repository, root.manifestVersion,
          (root.body.packs.map PackEntry.objectCount).sum, true⟩ := by
  have read : unmarshalBody root.body = .ok root.body := by rw [unmarshalBody, valid]; rfl
  constructor
  · intro done
    obtain ⟨body, same, done⟩ := bind_ok done
    cases Except.ok.inj (read.symm.trans (mapError_ok same))
    obtain ⟨seen, same, done⟩ := bind_ok done
    cases Except.ok.inj (listed.symm.trans (mapError_ok same))
    obtain ⟨packed, same, done⟩ := bind_ok done
    cases Except.ok.inj (indexed.symm.trans same)
    obtain ⟨named, exported, done⟩ := bind_ok done
    obtain ⟨repository, headed, done⟩ := bind_ok done
    obtain ⟨checked, made⟩ := require_bind_ok_iff.mp done
    exact ⟨named, repository, exported, headed, checked, (Except.ok.inj made).symm⟩
  · rintro ⟨named, repository, exported, headed, checked, rfl⟩
    refine bind_ok_iff.mpr ⟨root.body, by rw [read]; rfl, ?_⟩
    refine bind_ok_iff.mpr ⟨refs, by rw [listed]; rfl, ?_⟩
    refine bind_ok_iff.mpr ⟨filled, indexed, ?_⟩
    refine bind_ok_iff.mpr ⟨named, exported, ?_⟩
    refine bind_ok_iff.mpr ⟨repository, headed, ?_⟩
    exact require_bind_ok_iff.mpr ⟨checked, rfl⟩

/-- A root whose packs are stored and complete is served exactly if its refs and its
default branch are presentable. -/
theorem served_iff (valid : validateBody root.body = .ok ())
    (listed : list h objects root.body = .ok refs) (stored : ∀ pack ∈ root.body.packs,
      validOID pack.packID = true ∧ packs pack.packKey = some pack.packID)
    (closed : ∀ oid, Writers.ReachedFrom git refs oid →
      ∃ pack ∈ root.body.packs, oid ∈ git.contents pack.packID)
    (named : root.body.defaultBranch ≠ []) :
    Served h tools packs objects root ↔ Presentable git root.body.defaultBranch refs := by
  have visited : ∀ entry, entry ∈ tools.order refs ↔ refs.lookup entry.1 = some entry.2 := by
    intro entry
    rw [(tools.visits refs).mem_iff, ← mem_entries]
  have whole : insertAll (tools.order refs) ∅ = refs := insertAll_perm (tools.visits refs)
  obtain ⟨held, indexed, members⟩ := indexPacks_ok git stored (initBare tools)
  have fresh : Coexist (∅ : RefMap) := fun parent above => absurd above notMem_empty
  constructor
  · rintro ⟨result, exported, -, -⟩
    obtain ⟨_, _, exported, headed, -⟩ := (export_ok_iff valid listed indexed).mp exported
    obtain ⟨wellFormed, coexist, rfl⟩ := (exportRefs_ok_iff (by exact fresh)).mp exported
    obtain ⟨⟨branch, accepted, present⟩, -⟩ := (setHead_ok_iff named).mp headed
    exact ⟨fun name oid found => wellFormed (name, oid) ((visited _).mpr found),
      whole ▸ coexist, branch, accepted, present⟩
  · intro presentable
    have exported : (tools.order refs).foldlM (exportRef git) ⟨∅, held, tools.initialHead⟩ =
        .ok ⟨refs, held, tools.initialHead⟩ :=
      (exportRefs_ok_iff (by exact fresh)).mpr
        ⟨fun entry member => presentable.wellFormed _ _ ((visited entry).mp member),
          whole.symm ▸ presentable.coexist, by rw [whole]⟩
    have headed : setHead git root.body.defaultBranch refs ⟨refs, held, tools.initialHead⟩ =
        .ok ⟨refs, held, root.body.defaultBranch⟩ :=
      (setHead_ok_iff named).mpr
        ⟨⟨presentable.valid, presentable.accepted, presentable.present⟩, rfl⟩
    have checked := tools.complete ⟨refs, held, root.body.defaultBranch⟩
      fun oid reached => (members oid).mpr (.inr (closed oid reached))
    exact ⟨_, (export_ok_iff valid listed indexed).mpr ⟨_, _, exported, headed, checked, rfl⟩,
      listed, rfl⟩

theorem indexPacks_refs
    (indexed : entries.foldlM (downloadAndIndexPack git packs) repository = .ok result) :
    result.refs = repository.refs := by
  induction entries generalizing repository with
  | nil =>
    cases indexed
    rfl
  | cons pack rest ih =>
    obtain ⟨middle, here, later⟩ := bind_ok indexed
    rw [ih later]
    obtain ⟨-, downloaded⟩ := require_bind_ok_iff.mp here
    split at downloaded
    · cases downloaded
    · cases downloaded
      rfl

theorem setHead_refs (headed : setHead git branch refs repository = .ok result) :
    result.refs = repository.refs := by
  by_cases blank : branch = []
  · rw [setHead, if_pos blank] at headed
    cases headed
    rfl
  · obtain ⟨-, rfl⟩ := (setHead_ok_iff blank).mp headed
    rfl

theorem export_refs {skipFsck : Bool} {result : Result}
    (done : exportRepository h tools packs objects root skipFsck = .ok result) :
    list h objects root.body = .ok result.repository.refs := by
  obtain ⟨body, read, done⟩ := bind_ok done
  obtain ⟨-, rfl⟩ := unmarshalBody_ok (mapError_ok read)
  obtain ⟨refs, listed, done⟩ := bind_ok done
  obtain ⟨filled, indexed, done⟩ := bind_ok done
  obtain ⟨named, exported, done⟩ := bind_ok done
  obtain ⟨repository, headed, done⟩ := bind_ok done
  have made : result.repository = repository := by
    cases skipFsck with
    | true =>
      cases done
      rfl
    | false =>
      obtain ⟨-, made⟩ := require_bind_ok_iff.mp done
      cases made
      rfl
  have fresh : filled.refs = ∅ := indexPacks_refs indexed
  have coexist : Coexist filled.refs := by
    rw [fresh]
    exact fun parent above => absurd above notMem_empty
  obtain ⟨-, -, rfl⟩ := (exportRefs_ok_iff coexist).mp exported
  rw [made, setHead_refs headed, mapError_ok listed]
  exact congrArg Except.ok (by rw [fresh, insertAll_perm (tools.visits refs)])

end BucketVcs.Exporter
