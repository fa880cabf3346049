import Mathlib.Data.List.DropRight
import BucketVcs.Lib.Dict
import BucketVcs.Lib.Utf8

/-! The collector of LFS objects: pointer blobs, the set of objects they name, mark records
and the retention a sweep applies to them. -/

namespace BucketVcs.Lfs

open List Option Finmap

abbrev Bytes := List UInt8

/-- Nanoseconds since the epoch, in UTC. -/
abbrev Instant := Nat

/-- An LFS object is named by the 64 hex digits of its hash. -/
abbrev OID := Bytes

def newline : UInt8 := 0x0A

def isLowerHex64 (s : Bytes) : Bool :=
  s.length = 64 && s.all fun c => (0x30 ≤ c && c ≤ 0x39) || (0x61 ≤ c && c ≤ 0x66)

/-! ### Pointer blobs -/

def pointerVersionLine : Bytes := Utf8.encode "version https://git-lfs.github.com/spec/v1"

def oidLead : Bytes := Utf8.encode "oid sha256:"

def trimRight (line : Bytes) : Bytes := line.rdropWhile fun c => c = 0x0D || c = 0x20

/-- The oid of the first line that has one; a malformed one ends the search. -/
def parseOidLine (lines : List Bytes) : Option OID :=
  match (lines.map trimRight).find? fun line => oidLead.isPrefixOf line with
  | none => none
  | some line =>
    let hex := line.drop oidLead.length
    if isLowerHex64 hex then some hex else none

def parsePointer (blob : Bytes) : Option OID :=
  match (blob.take 1024).splitOn newline with
  | first :: line :: lines =>
    if trimRight first = pointerVersionLine then parseOidLine (line :: lines) else none
  -- there is no line feed
  | _ => none

inductive GitObject where
  | blob (bytes : Bytes)
  | other
  deriving DecidableEq

def maxBlobSizeForPointerCheck : Nat := 1024

def smallBlob : GitObject → Option Bytes
  | .blob bytes => if bytes.length ≤ maxBlobSizeForPointerCheck then some bytes else none
  | .other => none

def listSmallBlobs (objects : List GitObject) : List Bytes := objects.filterMap smallBlob

def buildLiveSet (objects : List GitObject) : List OID :=
  (listSmallBlobs objects).filterMap parsePointer

def Names (objects : List GitObject) (oid : OID) : Prop :=
  ∃ bytes, .blob bytes ∈ objects ∧ bytes.length ≤ maxBlobSizeForPointerCheck ∧
    parsePointer bytes = some oid

theorem smallBlob_eq_some {object : GitObject} {bytes : Bytes} :
    smallBlob object = some bytes ↔
      object = .blob bytes ∧ bytes.length ≤ maxBlobSizeForPointerCheck := by
  cases object with
  | other => simp [smallBlob]
  | blob held =>
    simp only [smallBlob, ite_none_right_eq_some, some.injEq, GitObject.blob.injEq]
    constructor
    · rintro ⟨fits, rfl⟩
      exact ⟨rfl, fits⟩
    · rintro ⟨rfl, fits⟩
      exact ⟨fits, rfl⟩

variable {oid : OID}

theorem mem_buildLiveSet {objects : List GitObject} :
    oid ∈ buildLiveSet objects ↔ Names objects oid := by
  simp [buildLiveSet, listSmallBlobs, smallBlob_eq_some, Names, and_assoc]

def pointerText (oid : OID) (size : Bytes) : Bytes :=
  pointerVersionLine ++ [newline] ++ (oidLead ++ oid ++ [newline] ++ (Utf8.encode "size " ++ size ++
    [newline]))

theorem trimRight_concat {line : Bytes} {last : UInt8} (kept : last ≠ 0x0D ∧ last ≠ 0x20) :
    trimRight (line ++ [last]) = line ++ [last] := by
  apply rdropWhile_concat_neg
  simp [kept]

theorem splitOn_line {line : Bytes} (single : newline ∉ line) (rest : Bytes) :
    (line ++ newline :: rest).splitOn newline = line :: rest.splitOn newline := by
  apply splitOnP_append_cons_of_forall_mem
  · intro c member
    simp only [beq_eq_false_iff_ne]
    rintro rfl
    exact single member
  · exact beq_self_eq_true newline

section Canonical

variable {oid : OID} (valid : isLowerHex64 oid = true)
include valid

theorem length_of_isLowerHex64 : oid.length = 64 := by
  simp only [isLowerHex64, Bool.and_eq_true, decide_eq_true_eq] at valid
  exact valid.1

theorem ne_of_isLowerHex64 {c : UInt8} (member : c ∈ oid) : ¬ c < 0x30 := by
  simp only [isLowerHex64, Bool.and_eq_true, List.all_eq_true] at valid
  have digit := valid.2 c member
  simp only [UInt8.le_iff_toNat_le, UInt8.lt_iff_toNat_lt] at digit ⊢
  simp at digit ⊢
  omega

theorem newline_not_mem_oidLine : newline ∉ oidLead ++ oid := by
  intro member
  rcases mem_append.mp member with lead | inside
  · revert lead
    decide
  · exact ne_of_isLowerHex64 valid inside (by decide)

theorem trimRight_oidLine : trimRight (oidLead ++ oid) = oidLead ++ oid := by
  have nonempty : oid ≠ [] := by
    rintro rfl
    cases length_of_isLowerHex64 valid
  obtain ⟨front, last, rfl⟩ := (eq_nil_or_concat' oid).resolve_left nonempty
  have digit := ne_of_isLowerHex64 valid (mem_append_right front (mem_singleton_self last))
  rw [← append_assoc]
  apply trimRight_concat
  constructor
  · rintro rfl
    exact digit (by decide)
  · rintro rfl
    exact digit (by decide)

/-- What the client writes is read as a pointer to the same object. -/
theorem parsePointer_pointerText (size : Bytes) : parsePointer (pointerText oid size) = some oid := by
  have length := length_of_isLowerHex64 valid
  obtain ⟨tail, taken⟩ : ∃ tail, (pointerText oid size).take 1024 =
      pointerVersionLine ++ newline :: ((oidLead ++ oid) ++ newline :: tail) := by
    have shape : pointerText oid size = (pointerVersionLine ++ newline :: ((oidLead ++ oid) ++
        [newline])) ++ (Utf8.encode "size " ++ size ++ [newline]) := by
      simp [pointerText]
    rw [shape, take_append, take_of_length_le]
    · exact ⟨_, by rw [append_assoc, cons_append, append_assoc, singleton_append]⟩
    · simp [length, show pointerVersionLine.length = 42 by decide, show oidLead.length = 11 by decide]
  have found : oidLead.isPrefixOf (oidLead ++ oid) = true := by simp
  have version : trimRight pointerVersionLine = pointerVersionLine := by decide
  have first : newline ∉ pointerVersionLine := by decide
  rw [parsePointer, taken, splitOn_line first, splitOn_line (newline_not_mem_oidLine valid)]
  simp [version, parseOidLine, trimRight_oidLine valid, List.find?_cons_of_pos found, valid]

end Canonical

theorem parsePointer_pointerText_zeros :
    parsePointer (pointerText (.replicate 64 0x30) [0x31]) = some (.replicate 64 0x30) :=
  parsePointer_pointerText (by decide) _

/-! ### Marks -/

structure Stored where
  version : Nat
  size : Nat
  deriving DecidableEq, Repr

structure MarkCandidate where
  oid : OID
  sizeBytes : Nat
  firstSeenUnreferencedAt : Instant
  deriving DecidableEq, Repr

def maxRetentionSeconds : Int := 9223372036

/-- `RetentionSeconds` as `runLFSPhase` fills it in, from a `time.Duration`. -/
abbrev RetentionSeconds := {seconds : Int // 0 < seconds ∧ seconds ≤ maxRetentionSeconds}

/-- The id of a mark spells the time it was started at, so that ids sort by time. -/
structure MarkRecord where
  startedAt : Instant
  previousMarkID : Option Instant
  completedAt : Instant
  manifestVersionAtMark : Nat
  retentionSeconds : RetentionSeconds
  candidates : List MarkCandidate
  deriving DecidableEq

def MarkRecord.markID (mark : MarkRecord) : Instant := mark.startedAt

def MarkRecord.Lists (mark : MarkRecord) (oid : OID) (first : Instant) : Prop :=
  ∃ c ∈ mark.candidates, c.oid = oid ∧ c.firstSeenUnreferencedAt = first

abbrev Marks := Finmap fun _ : Instant => MarkRecord

def readLatestMark (marks : Marks) : Option MarkRecord :=
  (Dict.sortedKeys marks).max?.bind fun id => marks.lookup id

def writeMark (marks : Marks) (mark : MarkRecord) : Marks :=
  if mark.markID ∈ marks then marks else marks.insert mark.markID mark

def defaultRetentionSeconds : RetentionSeconds := ⟨604800, by decide⟩

def normalizeRetention (seconds : Int) (fits : seconds ≤ maxRetentionSeconds) : RetentionSeconds :=
  if positive : 0 < seconds then ⟨seconds, positive, fits⟩ else defaultRetentionSeconds

/-- `carryForward` of `RunMark`: when each candidate of the mark before was first seen. -/
def carryForward (prev : Option MarkRecord) : Finmap fun _ : OID => Instant :=
  Dict.insertAll ((prev.elim [] MarkRecord.candidates).map fun c =>
    (c.oid, c.firstSeenUnreferencedAt)) ∅

local instance lawfulBEqOID : LawfulBEq OID := inferInstance

/-- What `RunMark` makes of one listed object; keys that spell no oid are passed over. -/
def candidate (live : List OID) (carry : Finmap fun _ : OID => Instant) (startedAt : Instant)
    (listed : Bytes × Stored) : Option MarkCandidate :=
  if isLowerHex64 listed.1 = false then none
  else if listed.1 ∈ live then none
  else some ⟨listed.1, listed.2.size, (carry.lookup listed.1).getD startedAt⟩

def sortByOid (candidates : List MarkCandidate) : List MarkCandidate :=
  candidates.insertionSort fun a b => a.oid ≤ b.oid

def markRecord (startedAt completedAt : Instant) (seconds : RetentionSeconds)
    (manifestVersion : Nat) (live : List OID) (prev : Option MarkRecord)
    (listed : List (Bytes × Stored)) : MarkRecord :=
  { startedAt
    previousMarkID := prev.map MarkRecord.markID
    completedAt
    manifestVersionAtMark := manifestVersion
    retentionSeconds := seconds
    candidates := sortByOid (listed.filterMap (candidate live (carryForward prev) startedAt)) }

/-- The retention a sweep applies, in nanoseconds; the product wraps like the machine's. -/
def MarkRecord.retention (mark : MarkRecord) : Int :=
  let nanoseconds := (mark.retentionSeconds.val * 1000000000).bmod (2 ^ 64)
  if nanoseconds ≤ 0 then defaultRetentionSeconds.val * 1000000000 else nanoseconds

theorem MarkRecord.retention_eq (mark : MarkRecord) :
    mark.retention = mark.retentionSeconds.val * 1000000000 := by
  obtain ⟨positive, fits⟩ := mark.retentionSeconds.property
  unfold maxRetentionSeconds at fits
  have same : (mark.retentionSeconds.val * 1000000000).bmod (2 ^ 64) =
      mark.retentionSeconds.val * 1000000000 := by
    apply Int.bmod_eq_of_le <;> omega
  rw [MarkRecord.retention, same, if_neg (by omega)]

def applyRetention (candidates : List MarkCandidate) (now : Instant) (retention : Int) :
    List MarkCandidate × List MarkCandidate :=
  let cutoff := (now : Int) - retention
  (sortByOid (candidates.filter fun c => (c.firstSeenUnreferencedAt : Int) ≤ cutoff),
    candidates.filter fun c => ¬ (c.firstSeenUnreferencedAt : Int) ≤ cutoff)

variable {c : MarkCandidate} {candidates : List MarkCandidate} {marks : Marks} {mark : MarkRecord}

theorem mem_sortByOid : c ∈ sortByOid candidates ↔ c ∈ candidates :=
  (perm_insertionSort _ candidates).mem_iff

theorem mem_applyRetention {now : Instant} {retention : Int} :
    c ∈ (applyRetention candidates now retention).1 ↔
      c ∈ candidates ∧ (c.firstSeenUnreferencedAt : Int) ≤ now - retention := by
  simp [applyRetention, mem_sortByOid]

theorem readLatestMark_eq_some :
    readLatestMark marks = some mark ↔
      ∃ id, marks.lookup id = some mark ∧ ∀ other ∈ marks, other ≤ id := by
  simp only [readLatestMark, bind_eq_some_iff, List.max?_eq_some_iff, Dict.mem_sortedKeys]
  constructor
  · rintro ⟨id, ⟨-, newest⟩, found⟩
    exact ⟨id, found, newest⟩
  · rintro ⟨id, found, newest⟩
    exact ⟨id, ⟨mem_of_lookup_eq_some found, newest⟩, found⟩

theorem readLatestMark_writeMark {newest : MarkRecord}
    (latest : readLatestMark (writeMark marks mark) = some newest) :
    newest = mark ∨ readLatestMark marks = some newest := by
  unfold writeMark at latest
  split at latest
  · exact .inr latest
  obtain ⟨id, found, largest⟩ := readLatestMark_eq_some.mp latest
  by_cases same : id = mark.markID
  · subst same
    rw [lookup_insert] at found
    exact .inl (some.inj found).symm
  · rw [lookup_insert_of_ne _ same] at found
    refine .inr (readLatestMark_eq_some.mpr ⟨id, found, ?_⟩)
    intro other member
    exact largest other (mem_insert.mpr (.inr member))

theorem MarkRecord.Lists.of_markRecord {startedAt completedAt : Instant}
    {seconds : RetentionSeconds} {version : Nat} {live : List OID} {prev : Option MarkRecord}
    {listed : List (Bytes × Stored)} {first : Instant}
    (lists : (markRecord startedAt completedAt seconds version live prev listed).Lists oid first) :
    oid ∉ live ∧ (first = startedAt ∨ ∃ mark, prev = some mark ∧ mark.Lists oid first) := by
  obtain ⟨c, member, rfl, rfl⟩ := lists
  obtain ⟨entry, -, made⟩ := mem_filterMap.mp (mem_sortByOid.mp member)
  unfold candidate at made
  split at made
  · cases made
  split at made
  · cases made
  next unnamed =>
  cases made
  refine ⟨unnamed, ?_⟩
  cases found : (carryForward prev).lookup entry.1 with
  | none => exact .inl rfl
  | some first =>
    right
    rcases Dict.lookup_insertAll _ ∅ found with inside | before
    · obtain ⟨old, held, same⟩ := List.mem_map.mp inside
      obtain ⟨sameOid, sameFirst⟩ := Prod.mk.inj same
      cases prev with
      | none => cases held
      | some mark => exact ⟨mark, rfl, old, held, sameOid, sameFirst⟩
    · cases before

end BucketVcs.Lfs
