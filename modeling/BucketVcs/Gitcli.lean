import BucketVcs.Lib.Dag
import BucketVcs.Lib.Lines
import BucketVcs.RefNames

/-! `gitcli.DiffTreeChangedPaths`: the paths a ref update changes, as they are read off the
output of `git log --name-only`. -/

namespace BucketVcs.Gitcli

open Manifest RefNames List Finmap

abbrev Path := List UInt8

def validHexOID (oid : OID) : Bool :=
  (oid.toList.length = 40 || oid.toList.length = 64) && oid.toList.all lowerHex

structure Entry where
  mode : Nat
  oid : OID
  deriving DecidableEq

structure Tree where
  files : Finmap fun _ : Path => Entry
  named : [] ∉ files

def Tree.empty : Tree := ⟨∅, Finmap.notMem_empty⟩

structure Commit where
  tree : Tree
  parents : List OID

/-- The commits of a bare repository: each with all its parents, none its own ancestor. -/
structure History where
  commits : Finmap fun _ : OID => Commit
  height : OID → Nat
  ids : ∀ oid ∈ commits, validHexOID oid = true ∧ oid ≠ nullOID
  connected : ∀ oid commit, commits.lookup oid = some commit →
    ∀ parent ∈ commit.parents, parent ∈ commits
  falls : ∀ oid commit, commits.lookup oid = some commit →
    ∀ parent ∈ commit.parents, height parent < height oid

namespace History

variable (history : History)

def parents (oid : OID) : List OID := ((history.commits.lookup oid).map Commit.parents).getD []

def tree (oid : OID) : Tree := ((history.commits.lookup oid).map Commit.tree).getD .empty

def dag : Dag OID where
  parents := history.parents
  height := history.height
  falls := by
    intro oid parent member
    unfold parents at member
    cases found : history.commits.lookup oid with
    | none => simp [found] at member
    | some commit =>
      rw [found] at member
      exact history.falls oid commit found parent member

def parentTree (oid : OID) : Tree := ((history.dag.first oid).map history.tree).getD .empty

/-- The commits `git log --first-parent` visits, without the ancestors of `excluded`. -/
def walk (excluded : Option OID) (new : OID) : List OID :=
  history.dag.walk (fun oid => excluded.any (history.dag.reaches · oid)) new

def Differs (old new : OID) (path : Path) : Prop :=
  (history.tree old).files.lookup path ≠ (history.tree new).files.lookup path

end History

def newline : UInt8 := 0x0A

/-- The ASCII part of `unicode.IsSpace`; names with other bytes are quoted. -/
def isSpace (b : UInt8) : Bool := b = 0x20 || (0x09 ≤ b && b ≤ 0x0D)

def printable (b : UInt8) : Bool := 0x20 ≤ b && b < 0x7F

def plain (b : UInt8) : Bool := printable b && b ≠ 0x22 && b ≠ 0x5C

def escape (b : UInt8) : List UInt8 :=
  if plain b then [b]
  else 0x5C ::
    match b with
    | 0x07 => [0x61]
    | 0x08 => [0x62]
    | 0x09 => [0x74]
    | 0x0A => [0x6E]
    | 0x0B => [0x76]
    | 0x0C => [0x66]
    | 0x0D => [0x72]
    | 0x22 => [0x22]
    | 0x5C => [0x5C]
    | _ => [0x30 + b / 64, 0x30 + b / 8 % 8, 0x30 + b % 8]

def quoteCStyle (name : Path) : Path :=
  if name.all plain then name else 0x22 :: name.flatMap escape ++ [0x22]

/-- What is assumed of `git log`. It detects renames, of which only the new name is listed,
and prints one name a line; empty lines stand between commits. -/
structure Tools where
  renames : Tree → Tree → List (Path × Path)
  nameOnly : Tree → Tree → List Path
  log : History → Option OID → OID → Option (List UInt8)
  renamed : ∀ {before after : Tree} {source target : Path},
    (source, target) ∈ renames before after →
      source ∈ before.files ∧ source ∉ after.files ∧ target ∉ before.files ∧ target ∈ after.files
  listed : ∀ {before after : Tree} {path : Path}, path ∈ nameOnly before after ↔
    before.files.lookup path ≠ after.files.lookup path ∧
      path ∉ (renames before after).map Prod.fst
  printed : ∀ {history : History} {excluded : Option OID} {new : OID} {out : List UInt8},
    log history excluded new = some out → Lines.lines newline out =
      ((history.walk excluded new).flatMap fun oid =>
        nameOnly (history.parentTree oid) (history.tree oid)).map quoteCStyle

inductive Error where
  | invalidOldOID (oid : OID)
  | invalidNewOID (oid : OID)
  | diffTree (old new : String)
  | tooManyPaths
  deriving DecidableEq

def maxNewRefDiffPaths : Nat := 10000

def shortOID (oid : OID) : String := String.ofList (oid.toList.take 12)

def collect (created : Bool) : List Path → Finset Path → List Path → Except Error (List Path)
  | [], _, paths => .ok paths
  | line :: rest, seen, paths =>
    if line = [] then collect created rest seen paths
    else if line ∈ seen then collect created rest seen paths
    else if created ∧ maxNewRefDiffPaths < (paths ++ [line]).length then .error .tooManyPaths
    else collect created rest (insert line seen) (paths ++ [line])

def rangeStart (oldOID : OID) : Option OID := if oldOID = nullOID then none else some oldOID

def diffTreeChangedPaths (tools : Tools) (history : History) (oldOID newOID : OID) :
    Except Error (List Path) :=
  if ¬ validHexOID oldOID then .error (.invalidOldOID oldOID)
  else if ¬ validHexOID newOID then .error (.invalidNewOID newOID)
  else if newOID = nullOID ∨ oldOID = newOID then .ok []
  else
    match tools.log history (rangeStart oldOID) newOID with
    | none => .error (.diffTree (shortOID oldOID) (shortOID newOID))
    | some out =>
      if Lines.trim isSpace out = [] then .ok []
      else collect (oldOID = nullOID) ((Lines.trim isSpace out).splitOn newline) ∅ []

/-! Which changed paths `DiffTreeChangedPaths` returns. -/

variable {tools : Tools} {history : History} {old new : OID} {path : Path}

theorem collect_ok {created : Bool} {lines paths out : List Path} {seen : Finset Path}
    (same : ∀ line, line ∈ seen ↔ line ∈ paths)
    (collected : collect created lines seen paths = .ok out) :
    path ∈ out ↔ path ∈ paths ∨ path ∈ lines.filter (!·.isEmpty) := by
  induction lines generalizing seen paths with
  | nil =>
    cases collected
    simp
  | cons line rest ih =>
    rw [collect] at collected
    split at collected
    case isTrue empty => simp [ih same collected, empty]
    case isFalse solid =>
      split at collected
      case isTrue again =>
        grind
      case isFalse fresh =>
        split at collected
        · cases collected
        · have grown : ∀ other, other ∈ insert line seen ↔ other ∈ paths ++ [line] := by
            intro other
            rw [Finset.mem_insert, same, mem_append, List.mem_singleton, Or.comm]
          rw [ih grown collected, List.filter_cons_of_pos (by simpa using solid), List.mem_cons,
            mem_append, List.mem_singleton, or_assoc]

theorem changedPaths_cases {paths : List Path}
    (returned : diffTreeChangedPaths tools history old new = .ok paths) :
    (paths = [] ∧ (new = nullOID ∨ old = new)) ∨ ∃ out,
      tools.log history (rangeStart old) new = some out ∧
        ∀ path, path ∈ paths ↔ path ∈ Lines.lines newline (Lines.trim isSpace out) := by
  unfold diffTreeChangedPaths at returned
  split at returned
  · cases returned
  split at returned
  · cases returned
  split at returned
  case isTrue nothing =>
    cases returned
    exact .inl ⟨rfl, nothing⟩
  case isFalse =>
    split at returned
    · cases returned
    next out logged =>
      refine .inr ⟨out, logged, fun path => ?_⟩
      split at returned
      case isTrue empty =>
        cases returned
        simp [empty, Lines.lines]
      case isFalse =>
        rw [collect_ok (by simp) returned, Lines.lines]
        simp

/-! What the log shows. -/

theorem printable_octal {digit : UInt8} (small : digit < 8) : printable (0x30 + digit) = true := by
  have digits : digit.toNat < 8 := UInt8.lt_iff_toNat_lt.mp small
  have sum : (0x30 + digit).toNat = 48 + digit.toNat := by
    exact Nat.mod_eq_of_lt (show 48 + digit.toNat < 256 by omega)
  simp only [printable, UInt8.le_iff_toNat_le, UInt8.lt_iff_toNat_lt, sum, Bool.and_eq_true,
    decide_eq_true_eq]
  exact ⟨show 32 ≤ 48 + digit.toNat by omega, show 48 + digit.toNat < 127 by omega⟩

theorem escape_printable (b : UInt8) : ∀ c ∈ escape b, printable c = true := by
  unfold escape
  split
  case isTrue same =>
    simp only [plain, Bool.and_eq_true] at same
    simpa using same.1.1
  case isFalse =>
    have high : b / 64 < 8 := by
      have bound := b.toNat_lt
      change b.toNat / 64 < 8
      omega
    have middle : b / 8 % 8 < 8 := UInt8.mod_lt _ (by decide)
    have low : b % 8 < 8 := UInt8.mod_lt _ (by decide)
    have slash : printable 0x5C = true := by decide
    split <;> simp [printable_octal, high, middle, low] <;> decide

theorem quoteCStyle_printable (name : Path) : ∀ b ∈ quoteCStyle name, printable b = true := by
  intro b member
  unfold quoteCStyle at member
  split at member
  case isTrue plainName =>
    have each := all_eq_true.mp plainName b member
    simp only [plain, Bool.and_eq_true] at each
    exact each.1.1
  case isFalse =>
    rw [cons_append, List.mem_cons, mem_append, mem_flatMap, List.mem_singleton] at member
    rcases member with rfl | ⟨byte, -, inside⟩ | rfl
    · decide
    · exact escape_printable byte b inside
    · decide

/-- A path that is printed as it is. -/
structure Tidy (path : Path) : Prop extends Lines.Neat isSpace path where
  plain : path.all plain = true

def Touched (tools : Tools) (history : History) (oid : OID) (path : Path) : Prop :=
  path ∈ tools.nameOnly (history.parentTree oid) (history.tree oid)

theorem quoteCStyle_tidy (tidy : Tidy path) : quoteCStyle path = path := by
  rw [quoteCStyle, if_pos tidy.plain]

theorem mem_of_touched {oid : OID} {paths : List Path} (committed : new ∈ history.commits)
    (returned : diffTreeChangedPaths tools history old new = .ok paths) (moves : old ≠ new)
    (tidy : Tidy path) (visited : oid ∈ history.walk (rangeStart old) new)
    (touched : Touched tools history oid path) : path ∈ paths := by
  rcases changedPaths_cases returned with ⟨-, still⟩ | ⟨out, logged, shown⟩
  · exact absurd still (not_or.mpr ⟨(history.ids new committed).2, moves⟩)
  · refine (shown path).mpr (Lines.mem_lines_trim (by decide) tidy.toNeat ?_)
    rw [tools.printed logged, ← quoteCStyle_tidy tidy]
    exact List.mem_map_of_mem (mem_flatMap.mpr ⟨oid, visited, touched⟩)

/-- No commit of the walk changes the path against its first parent. -/
def Untouched (history : History) (old new : OID) (path : Path) : Prop :=
  ∀ oid ∈ history.walk (rangeStart old) new,
    (history.parentTree oid).files.lookup path = (history.tree oid).files.lookup path

/-- What the path is where the first parents of `new` meet the history of `old`, if they do. -/
def forkFile (history : History) (old new : OID) (path : Path) : Option Entry :=
  ((history.dag.fork (fun oid => (rangeStart old).any (history.dag.reaches · oid)) new).map
    fun oid => (history.tree oid).files.lookup path).getD none

theorem untouched_eq_fork (still : Untouched history old new path) :
    (history.tree new).files.lookup path = forkFile history old new path := by
  refine Dag.value_eq_fork (fun oid => (history.tree oid).files.lookup path) none
    fun oid visited => ?_
  rw [← still oid visited, History.parentTree]
  cases history.dag.first oid <;> rfl

theorem touched_of_differs (agrees : Untouched history old new path →
      forkFile history old new path = (history.tree old).files.lookup path)
    (differs : history.Differs old new path) : ∃ oid ∈ history.walk (rangeStart old) new,
      (history.parentTree oid).files.lookup path ≠ (history.tree oid).files.lookup path := by
  by_contra untouched
  push Not at untouched
  exact differs ((untouched_eq_fork untouched).trans (agrees untouched)).symm

theorem tree_of_null : history.tree nullOID = .empty := by
  have missing : nullOID ∉ history.commits := fun member => (history.ids nullOID member).2 rfl
  rw [History.tree, lookup_eq_none.mpr missing]
  rfl

theorem forkFile_of_mainline (grown : old = nullOID ∨ old ∈ history.dag.mainline new) :
    forkFile history old new path = (history.tree old).files.lookup path := by
  unfold forkFile
  by_cases created : old = nullOID
  · have nothing : history.dag.fork
        (fun oid => (rangeStart old).any (history.dag.reaches · oid)) new = none := by
      simp [Dag.fork, rangeStart, created]
    rw [nothing, created, tree_of_null]
    simp [Tree.empty]
  · have before : history.dag.fork
        (fun oid => (rangeStart old).any (history.dag.reaches · oid)) new = some old := by
      refine Dag.fork_of_mem (fun oid => ?_) (grown.resolve_left created)
      simp [rangeStart, created, Dag.reaches_iff]
    rw [before]
    rfl

/-- A push along first parents that moves no files and whose changed paths are tidy is seen
whole. -/
theorem mainline_push_complete {paths : List Path} (committed : new ∈ history.commits)
    (grown : old = nullOID ∨ old ∈ history.dag.mainline new)
    (unmoved : ∀ oid ∈ history.walk (rangeStart old) new,
      tools.renames (history.parentTree oid) (history.tree oid) = [])
    (returned : diffTreeChangedPaths tools history old new = .ok paths)
    (differs : history.Differs old new path) (tidy : Tidy path) : path ∈ paths := by
  obtain ⟨oid, visited, changed⟩ :=
    touched_of_differs (fun _ => forkFile_of_mainline grown) differs
  exact mem_of_touched committed returned (fun same => differs (by rw [same])) tidy visited
    (tools.listed.mpr ⟨changed, by simp [unmoved oid visited]⟩)

/-- A push that takes a ref back to an ancestor shows no path. -/
theorem rewind_unseen {paths : List Path} (existing : old ≠ nullOID)
    (rewinds : history.dag.Reaches old new)
    (returned : diffTreeChangedPaths tools history old new = .ok paths) : paths = [] := by
  have nothing : history.walk (rangeStart old) new = [] := by
    refine filter_eq_nil_iff.mpr fun oid member => ?_
    have reached : history.dag.Reaches old oid :=
      rewinds.trans (Dag.reaches_of_mem_mainline member)
    simp [rangeStart, existing, Dag.reaches_iff.mpr reached]
  rcases changedPaths_cases returned with ⟨same, -⟩ | ⟨out, logged, shown⟩
  · exact same
  · have empty : Lines.lines newline out = [] := by
      rw [tools.printed logged, nothing]
      rfl
    refine eq_nil_iff_forall_not_mem.mpr fun path member => ?_
    have read := (shown path).mp member
    rw [Lines.lines_trim (by decide) (by simp [empty]), empty] at read
    cases read

/-! A merge that keeps its first parent's tree. -/

def plainNames (before after : Tree) : List Path :=
  (Dict.sortedKeys (before.files ∪ after.files)).filter fun path =>
    before.files.lookup path ≠ after.files.lookup path

theorem mem_plainNames {before after : Tree} : path ∈ plainNames before after ↔
    before.files.lookup path ≠ after.files.lookup path := by
  rw [plainNames, List.mem_filter, Dict.mem_sortedKeys, decide_eq_true_iff, and_iff_right_iff_imp,
    Finmap.mem_union]
  intro differ
  by_contra missing
  push Not at missing
  exact differ (by rw [lookup_eq_none.mpr missing.1, lookup_eq_none.mpr missing.2])

def printLines (names : List Path) : List UInt8 :=
  names.flatMap fun name => quoteCStyle name ++ [newline]

theorem lines_printLines {names : List Path} (named : ∀ name ∈ names, name ≠ []) :
    Lines.lines newline (printLines names) = names.map quoteCStyle := by
  induction names with
  | nil => simp [printLines, Lines.lines]
  | cons name rest ih =>
    have unfolded : printLines (name :: rest) = quoteCStyle name ++ newline :: printLines rest := by
      simp [printLines]
    have unbroken : newline ∉ quoteCStyle name := fun member =>
      absurd (quoteCStyle_printable name newline member) (by decide)
    have solid : quoteCStyle name ≠ [] := by
      unfold quoteCStyle
      split
      · exact named name (by simp)
      · simp
    rw [unfolded, Lines.lines_append, Lines.lines_single unbroken,
      ih fun other member => named other (List.mem_cons_of_mem _ member)]
    simp [solid]

def plainTools : Tools where
  renames := fun _ _ => []
  nameOnly := plainNames
  log := fun history excluded new => some (printLines ((history.walk excluded new).flatMap fun oid =>
    plainNames (history.parentTree oid) (history.tree oid)))
  renamed := by simp
  listed := by simp [mem_plainNames]
  printed := by
    intro history excluded new out printed
    cases printed
    refine lines_printLines fun name member => ?_
    obtain ⟨oid, -, inside⟩ := List.mem_flatMap.mp member
    rintro rfl
    refine mem_plainNames.mp inside ?_
    rw [Finmap.lookup_eq_none.mpr (history.parentTree oid).named,
      Finmap.lookup_eq_none.mpr (history.tree oid).named]

def historyOf (entries : List (OID × Commit)) (height : OID → Nat)
    (distinct : (entries.map Prod.fst).Nodup)
    (ids : ∀ entry ∈ entries, validHexOID entry.1 = true ∧ entry.1 ≠ nullOID)
    (connected : ∀ entry ∈ entries, ∀ parent ∈ entry.2.parents, parent ∈ entries.map Prod.fst)
    (falls : ∀ entry ∈ entries, ∀ parent ∈ entry.2.parents, height parent < height entry.1) :
    History where
  commits := Dict.insertAll entries ∅
  height := height
  ids := by
    intro oid member
    obtain ⟨commit, found⟩ := Finmap.mem_iff.mp member
    exact ids (oid, commit) ((Dict.lookup_ofEntries distinct).mp found)
  connected := by
    intro oid commit found parent member
    exact Dict.mem_insertAll.mpr
      (Or.inl (connected (oid, commit) ((Dict.lookup_ofEntries distinct).mp found) parent member))
  falls := by
    intro oid commit found parent member
    exact falls (oid, commit) ((Dict.lookup_ofEntries distinct).mp found) parent member

def guarded : Path := [0x73]

def guardedAs (oid : OID) : Tree where
  files := Dict.insertAll [(guarded, ⟨0o100644, oid⟩)] ∅
  named := by simp [Dict.mem_insertAll, guarded, Finmap.notMem_empty]

def firstCommit : OID := "aaaaaaaaaaaaaaaaaaaaaaaaaaaaaaaaaaaaaaaa"
def changeCommit : OID := "bbbbbbbbbbbbbbbbbbbbbbbbbbbbbbbbbbbbbbbb"
def mergeCommit : OID := "cccccccccccccccccccccccccccccccccccccccc"

def mergedHistory : History :=
  historyOf
    [(firstCommit, ⟨guardedAs "1111111111111111111111111111111111111111", []⟩),
      (changeCommit, ⟨guardedAs "2222222222222222222222222222222222222222", [firstCommit]⟩),
      (mergeCommit,
        ⟨guardedAs "1111111111111111111111111111111111111111", [firstCommit, changeCommit]⟩)]
    (fun oid => if oid = firstCommit then 0 else if oid = changeCommit then 1 else 2)
    (by decide) (by decide) (by decide) (by decide)

theorem mainline_push_complete_sample :
    diffTreeChangedPaths plainTools mergedHistory firstCommit changeCommit = .ok [guarded] ∧
      ∀ path, mergedHistory.Differs firstCommit changeCommit path → Tidy path → path = guarded := by
  have returned : diffTreeChangedPaths plainTools mergedHistory firstCommit changeCommit =
      .ok [guarded] := by decide
  refine ⟨returned, fun path differs tidy => List.mem_singleton.mp ?_⟩
  exact mainline_push_complete (by decide) (.inr (by decide)) (fun _ _ => rfl) returned differs tidy

theorem rewind_unseen_sample :
    mergedHistory.Differs changeCommit firstCommit guarded ∧
      ¬ ∃ path paths, diffTreeChangedPaths plainTools mergedHistory changeCommit firstCommit =
        .ok (path :: paths) := by
  refine ⟨by unfold History.Differs; decide, ?_⟩
  rintro ⟨path, paths, returned⟩
  cases rewind_unseen (by decide) (Dag.reaches_iff.mp (by decide)) returned

theorem tidy_guarded : Tidy guarded := ⟨⟨rfl, rfl⟩, rfl⟩

end BucketVcs.Gitcli
