import BucketVcs.Lib.Lines

/-! The commit log of the web pages: what `git log` prints for a page, how `parseLog` reads it,
and the pages taken one after the other. -/

namespace BucketVcs.Gitbrowse

open List

abbrev Bytes := List UInt8

def recordSep : UInt8 := 0x1E
def fieldSep : UInt8 := 0x1F
def newline : UInt8 := 0x0A

def isDigit (c : UInt8) : Bool := 0x30 ≤ c && c ≤ 0x39
def isHex (c : UInt8) : Bool := isDigit c || (0x61 ≤ c && c ≤ 0x66)

/-- A commit as `git log` shows it: only its id and its time are git's own text. -/
structure Commit where
  id : Bytes
  author : Bytes
  email : Bytes
  time : Bytes
  subject : Bytes
  named : id ≠ []
  hex : ∀ c ∈ id, isHex c = true
  digits : ∀ c ∈ time, isDigit c = true ∨ c = 0x2D

structure CommitMeta where
  oid : Bytes
  shortOID : Bytes
  authorName : Bytes
  authorEmail : Bytes
  authorTime : Int
  summary : Bytes
  deriving DecidableEq

/-- What `--pretty=format:%H%x1f%an%x1f%ae%x1f%at%x1f%s` makes of a commit. -/
def Commit.fields (c : Commit) : Bytes :=
  [fieldSep].intercalate [c.id, c.author, c.email, c.time, c.subject]

/-- `gitcli.LogRaw`: the record separator ends each record, a newline stands between two. -/
def printLog : List Commit → Bytes
  | [] => []
  | [c] => c.fields ++ [recordSep]
  | c :: history => c.fields ++ recordSep :: newline :: printLog history

def logRaw (history : List Commit) (skip max : Nat) : Bytes :=
  printLog ((history.drop skip).take max)

-- `strconv.ParseInt` on the trimmed field, and zero where that fails
variable (parseInt : Bytes → Int)

def CommitMeta.ofFields (oid name email time subject : Bytes) : CommitMeta :=
  ⟨oid, oid.take 12, name, email, parseInt time, subject⟩

/-- A record with another number of fields is passed over, an empty one too. -/
def parseRecord (record : Bytes) : Option CommitMeta :=
  match (record.dropWhile (· = newline)).splitOn fieldSep with
  | [oid, name, email, time, subject] => some (.ofFields parseInt oid name email time subject)
  | _ => none

def parseLog (raw : Bytes) : List CommitMeta :=
  (raw.splitOn recordSep).filterMap (parseRecord parseInt)

def maxLogLimit : Nat := 100

def pageSize (limit : Int) : Nat := if limit ≤ 0 then 50 else min limit.toNat maxLogLimit

def log (history : List Commit) (offset : Nat) (limit : Int) : List CommitMeta × Bool :=
  let metas := parseLog parseInt (logRaw history offset (pageSize limit + 1))
  (metas.take (pageSize limit), pageSize limit < metas.length)

def pages (history : List Commit) (limit : Int) : Nat → Nat → Option (List CommitMeta)
  | 0, _ => none
  | calls + 1, offset =>
    match log parseInt history offset limit with
    | (metas, true) => (pages history limit calls (offset + pageSize limit)).map (metas ++ ·)
    | (metas, false) => some metas

def Commit.shown (c : Commit) : CommitMeta :=
  .ofFields parseInt c.id c.author c.email c.time c.subject

/-- None of the texts an author wrote has a separator in it. -/
def Commit.Plain (c : Commit) : Prop :=
  ∀ text ∈ [c.author, c.email, c.subject], recordSep ∉ text ∧ fieldSep ∉ text

variable {parseInt}

/-! ### What is read -/

theorem parseRecord_newline (record : Bytes) :
    parseRecord parseInt (newline :: record) = parseRecord parseInt record := by
  simp [parseRecord]

theorem parseLog_newline (raw : Bytes) :
    parseLog parseInt (newline :: raw) = parseLog parseInt raw := by
  have other : newline ≠ recordSep := by decide
  have parts : (newline :: raw).splitOn recordSep =
      (raw.splitOn recordSep).modifyHead (newline :: ·) := by
    simp [splitOn, splitOnP_cons_eq_if_modifyHead, other]
  rw [parseLog, parts, parseLog]
  cases raw.splitOn recordSep with
  | nil => rfl
  | cons first rest =>
    rw [modifyHead_cons, filterMap_cons, filterMap_cons, parseRecord_newline]

theorem parseLog_cons (record rest : Bytes) (whole : recordSep ∉ record) :
    parseLog parseInt (record ++ recordSep :: rest) =
      (parseRecord parseInt record).toList ++ parseLog parseInt rest := by
  rw [parseLog, splitOn_append_cons_self, splitOn_eq_singleton whole]
  simp [filterMap_cons]
  cases parseRecord parseInt record <;> rfl

variable {c : Commit}

theorem Commit.plain_fields (plain : c.Plain) :
    ∀ text ∈ [c.id, c.author, c.email, c.time, c.subject], recordSep ∉ text ∧ fieldSep ∉ text := by
  have id : recordSep ∉ c.id ∧ fieldSep ∉ c.id :=
    ⟨fun mem => absurd (c.hex _ mem) (by decide), fun mem => absurd (c.hex _ mem) (by decide)⟩
  have time : recordSep ∉ c.time ∧ fieldSep ∉ c.time :=
    ⟨fun mem => absurd (c.digits _ mem) (by decide), fun mem => absurd (c.digits _ mem) (by decide)⟩
  have author := plain c.author (by simp)
  have email := plain c.email (by simp)
  have subject := plain c.subject (by simp)
  simp only [forall_mem_cons, not_mem_nil, false_implies, implies_true, and_true]
  exact ⟨id, author, email, time, subject⟩

theorem Commit.fields_eq (c : Commit) : ∃ first rest, c.fields = first :: rest ∧ isHex first = true := by
  obtain ⟨first, rest, split⟩ := exists_cons_of_ne_nil c.named
  refine ⟨first, c.fields.tail, ?_, c.hex first (by simp [split])⟩
  rw [fields, split]
  rfl

theorem parseRecord_fields (plain : c.Plain) :
    parseRecord parseInt c.fields = some (c.shown parseInt) := by
  have start : c.fields.dropWhile (· = newline) = c.fields := by
    obtain ⟨first, rest, same, hex⟩ := c.fields_eq
    have other : first ≠ newline := by
      rintro rfl
      exact absurd hex (by decide)
    rw [same, dropWhile_cons_of_neg (by simpa using other)]
  have parts : c.fields.splitOn fieldSep = [c.id, c.author, c.email, c.time, c.subject] :=
    splitOn_intercalate _ (fun text mem => (c.plain_fields plain text mem).2) (by simp)
  rw [parseRecord, start, parts]
  rfl

theorem recordSep_not_mem_fields (plain : c.Plain) : recordSep ∉ c.fields := by
  have other : recordSep ≠ fieldSep := by decide
  have parts := c.plain_fields plain
  simp only [forall_mem_cons] at parts
  obtain ⟨id, author, email, time, subject, -⟩ := parts
  simp [Commit.fields, id, author, email, time, subject, other]

theorem parseLog_printLog {history : List Commit} (plain : ∀ c ∈ history, c.Plain) :
    parseLog parseInt (printLog history) = history.map (·.shown parseInt) := by
  induction history with
  | nil => rfl
  | cons c history ih =>
    have first := plain c (by simp)
    have rest := ih fun c mem => plain c (by simp [mem])
    cases history with
    | nil =>
      rw [printLog, parseLog_cons _ _ (recordSep_not_mem_fields first), parseRecord_fields first]
      rfl
    | cons next history =>
      rw [printLog, parseLog_cons _ _ (recordSep_not_mem_fields first), parseRecord_fields first,
        parseLog_newline, rest]
      · rfl
      · simp

/-! ### The pages -/

theorem pageSize_pos (limit : Int) : 0 < pageSize limit := by
  unfold pageSize maxLogLimit
  split <;> omega

variable {history : List Commit} {limit : Int}

theorem log_plain (plain : ∀ c ∈ history, c.Plain) (offset : Nat) :
    log parseInt history offset limit =
      (((history.drop offset).take (pageSize limit)).map (·.shown parseInt),
        decide (pageSize limit < (history.drop offset).length)) := by
  have slice : ∀ c ∈ (history.drop offset).take (pageSize limit + 1), c.Plain :=
    fun c mem => plain c (mem_of_mem_drop (mem_of_mem_take mem))
  simp only [log, logRaw, parseLog_printLog slice]
  rw [← map_take, take_take, min_eq_left (Nat.le_succ _)]
  simp only [length_map, length_take, Prod.mk.injEq, decide_eq_decide, true_and]
  omega

theorem pages_plain (plain : ∀ c ∈ history, c.Plain) (left : Nat) : ∀ offset,
    (history.drop offset).length ≤ left → ∃ calls,
      pages parseInt history limit calls offset =
        some ((history.drop offset).map (·.shown parseInt)) := by
  induction left using Nat.strongRecOn with
  | _ left ih =>
    intro offset enough
    by_cases more : pageSize limit < (history.drop offset).length
    · have moves := pageSize_pos limit
      have shorter : (history.drop (offset + pageSize limit)).length < left := by
        rw [length_drop] at more enough ⊢
        omega
      obtain ⟨calls, rest⟩ := ih _ shorter (offset + pageSize limit) le_rfl
      refine ⟨calls + 1, ?_⟩
      rw [pages, log_plain plain, decide_eq_true more]
      simp only [rest, Option.map_some, ← map_append, ← drop_drop]
      rw [take_append_drop]
    · refine ⟨1, ?_⟩
      rw [pages, log_plain plain, decide_eq_false more]
      simp only [take_of_length_le (not_lt.mp more)]

theorem mem_parseLog {raw : Bytes} {entry : CommitMeta} (member : entry ∈ parseLog parseInt raw) :
    ∀ text ∈ [entry.authorName, entry.authorEmail, entry.summary],
      recordSep ∉ text ∧ fieldSep ∉ text := by
  obtain ⟨record, piece, parsed⟩ := mem_filterMap.mp member
  have whole : recordSep ∉ record := (Lines.of_mem_splitOn piece).1
  unfold parseRecord at parsed
  split at parsed
  · rename_i oid name email time subject parts
    cases parsed
    have clear : ∀ text ∈ [oid, name, email, time, subject], recordSep ∉ text ∧ fieldSep ∉ text := by
      intro text mem
      obtain ⟨clear, inside⟩ := Lines.of_mem_splitOn (parts ▸ mem)
      exact ⟨fun sep => whole ((dropWhile_sublist _).subset (inside sep)), clear⟩
    intro text mem
    exact clear text (by simp at mem ⊢; tauto)
  · cases parsed

theorem mem_pages {calls offset : Nat} {entries : List CommitMeta}
    (read : pages parseInt history limit calls offset = some entries) :
    ∀ entry ∈ entries, ∀ text ∈ [entry.authorName, entry.authorEmail, entry.summary],
      recordSep ∉ text ∧ fieldSep ∉ text := by
  induction calls generalizing offset entries with
  | zero => cases read
  | succ calls ih =>
    have page : ∀ entry ∈ (log parseInt history offset limit).1, _ := fun entry mem =>
      mem_parseLog (mem_of_mem_take mem)
    rw [pages] at read
    split at read
    · rename_i metas answered
      obtain ⟨rest, later, rfl⟩ := Option.map_eq_some_iff.mp read
      intro entry mem
      rw [answered] at page
      exact (mem_append.mp mem).elim (page entry) (ih later entry)
    · rename_i metas answered
      cases read
      rwa [answered] at page

/-- The pages show every commit once, in order and as it is, exactly when no author wrote a
separator into a name, an address or a subject. -/
theorem log_faithful_iff (history : List Commit) (limit : Int) :
    (∃ calls, pages parseInt history limit calls 0 = some (history.map (·.shown parseInt))) ↔
      ∀ c ∈ history, c.Plain := by
  constructor
  · rintro ⟨calls, read⟩ c mem
    exact mem_pages read _ (List.mem_map_of_mem mem)
  · intro plain
    simpa using pages_plain plain _ 0 le_rfl

def twoCommits (author : Bytes) : List Commit :=
  [⟨[0x62], author, [0x65], [0x32], [0x6E], by decide, by decide +kernel, by decide +kernel⟩,
    ⟨[0x61], [0x41], [0x61], [0x31], [0x6D], by decide, by decide +kernel, by decide +kernel⟩]

/-- A name that ends a record and begins another puts an entry into the log that is no commit;
a name with a field separator hides its commit. -/
theorem forged_entry_shown :
    let forged : Bytes := [0x45, 0x1F, 0x65, 0x1F, 0x32, 0x1F, 0x6E, 0x1E, 0x66, 0x1F, 0x46]
    (pages (fun _ => 0) (twoCommits forged) 50 5 0).map (·.map (·.oid)) = some [[0x62], [0x66], [0x61]] ∧
    (pages (fun _ => 0) (twoCommits [0x45, 0x1F]) 50 5 0).map (·.map (·.oid)) = some [[0x61]] := by
  decide +kernel

end BucketVcs.Gitbrowse
