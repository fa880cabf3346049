import BucketVcs.Auth.Database

/-! The `users` table under concurrent `CreateUser`, `SetUserDisabled` and `DeleteUser`, one
step for each SQL statement, and the enabled admin that must remain. -/

namespace BucketVcs.Auth

open Transition List Option Function

def UserRow.enabledAdmin (row : UserRow) : Bool := row.isAdmin && row.disabledAt.isNone

/-- The `users` table, with its constraint on names. -/
structure Users where
  rows : List UserRow
  unique : (rows.map UserRow.name).Nodup

namespace Users

section Statements

variable (users : Users) (name : Username)

def find : Option UserRow := users.rows.find? fun row => row.name = name

/-- `SELECT COUNT(*) FROM users WHERE is_admin = 1 AND name != ? AND disabled_at IS NULL`. -/
def countOthers : ℕ := users.rows.countP fun row => row.enabledAdmin && row.name ≠ name

def setDisabledAt (disabledAt : Option Seconds) : Users where
  rows := users.rows.map fun row => if row.name = name then { row with disabledAt } else row
  unique := by
    have same : UserRow.name ∘ (fun row : UserRow =>
        if row.name = name then { row with disabledAt } else row) = UserRow.name := by
      funext row
      dsimp only [Function.comp_apply]
      split <;> rfl
    rw [List.map_map, same]
    exact users.unique

def delete : Users where
  rows := users.rows.filter fun row => row.name ≠ name
  unique := (List.filter_sublist.map UserRow.name).nodup users.unique

def insert (row : UserRow) : Option Users :=
  if free : (∀ other ∈ users.rows, other.name ≠ row.name) ∧ ∀ other ∈ users.rows, other.id ≠ row.id then
    some
      { rows := row :: users.rows
        unique := by
          rw [List.map_cons, List.nodup_cons]
          refine ⟨?_, users.unique⟩
          intro member
          obtain ⟨other, present, same⟩ := List.mem_map.mp member
          exact free.1 other present same }
  else none

/-- An enabled admin is there that has none of the names. -/
def HasAdminBesides (names : List Username) : Prop :=
  ∃ row ∈ users.rows, row.enabledAdmin = true ∧ row.name ∉ names

end Statements

section Admins

variable {users : Users} {name : Username} {names : List Username}

theorem hasAdminBesides_iff_count : users.HasAdminBesides [name] ↔ users.countOthers name ≠ 0 := by
  rw [countOthers]
  simp [HasAdminBesides]

variable {row : UserRow}

theorem find_some (found : users.find name = some row) : row ∈ users.rows ∧ row.name = name :=
  ⟨List.mem_of_find?_eq_some found, by simpa using List.find?_some found⟩

theorem hasAdminBesides_of_ordinary (found : users.find name = some row)
    (ordinary : row.isAdmin = false) (some_admin : users.HasAdminBesides []) :
    users.HasAdminBesides [name] := by
  obtain ⟨admin, member, enabled, _⟩ := some_admin
  obtain ⟨present, named⟩ := find_some found
  refine ⟨admin, member, enabled, ?_⟩
  intro taken
  have sameName : admin.name = row.name := (mem_singleton.mp taken).trans named.symm
  obtain rfl := inj_on_of_nodup_map users.unique member present sameName
  simp [UserRow.enabledAdmin, ordinary] at enabled

theorem HasAdminBesides.mono {fewer : List Username} (admin : users.HasAdminBesides names)
    (sub : fewer ⊆ names) : users.HasAdminBesides fewer := by
  obtain ⟨row, member, enabled, besides⟩ := admin
  exact ⟨row, member, enabled, fun taken => besides (sub taken)⟩

theorem HasAdminBesides.insert {after : Users} (inserted : users.insert row = some after)
    (admin : users.HasAdminBesides names) : after.HasAdminBesides names := by
  obtain ⟨kept, member, enabled, besides⟩ := admin
  unfold Users.insert at inserted
  split at inserted
  · cases inserted
    exact ⟨kept, mem_cons_of_mem _ member, enabled, besides⟩
  · cases inserted

theorem HasAdminBesides.enable (admin : users.HasAdminBesides names) :
    (users.setDisabledAt name none).HasAdminBesides names := by
  obtain ⟨row, member, enabled, besides⟩ := admin
  refine ⟨_, List.mem_map_of_mem member, ?_, ?_⟩
  · split
    · simp_all [UserRow.enabledAdmin]
    · exact enabled
  · split <;> exact besides

theorem HasAdminBesides.disable (now : Seconds) (admin : users.HasAdminBesides (name :: names)) :
    (users.setDisabledAt name (some now)).HasAdminBesides names := by
  obtain ⟨row, member, enabled, besides⟩ := admin
  obtain ⟨other, besides⟩ := not_or.mp (mem_cons.not.mp besides)
  exact ⟨row, List.mem_map.mpr ⟨row, member, if_neg other⟩, enabled, besides⟩

theorem HasAdminBesides.delete (admin : users.HasAdminBesides (name :: names)) :
    (users.delete name).HasAdminBesides names := by
  obtain ⟨row, member, enabled, besides⟩ := admin
  obtain ⟨other, besides⟩ := not_or.mp (mem_cons.not.mp besides)
  exact ⟨row, mem_filter.mpr ⟨member, by simpa using other⟩, enabled, besides⟩

end Admins

end Users

/-- The calls that run in a transaction, behind the check for the last admin. -/
inductive Removal where
  | setUserDisabled (name : Username) (now : Seconds)
  | deleteUser (name : Username)
  deriving DecidableEq, Repr

namespace Removal

def name : Removal → Username
  | .setUserDisabled name _ => name
  | .deleteUser name => name

def apply (users : Users) : Removal → Users
  | .setUserDisabled name now => users.setDisabledAt name (some now)
  | .deleteUser name => users.delete name

theorem hasAdminBesides_apply {users : Users} {names : List Username} (removal : Removal)
    (admin : users.HasAdminBesides (removal.name :: names)) :
    (removal.apply users).HasAdminBesides names := by
  cases removal with
  | setUserDisabled name now => exact admin.disable now
  | deleteUser name => exact admin.delete

end Removal

inductive UserCall where
  | createUser (id : UserID) (name : Username) (isAdmin : Bool)
  | enableUser (name : Username)
  | remove (removal : Removal)
  deriving DecidableEq, Repr

inductive UserOutcome where
  | done
  | conflict
  | noSuchUser
  | lastAdmin
  | reservedUser
  | failed
  deriving DecidableEq, Repr

structure Snapshot where
  users : Users
  version : ℕ

inductive Phase where
  | idle
  | called (call : UserCall)
  | admin (removal : Removal) (snapshot : Snapshot)
  | cleared (removal : Removal) (snapshot : Snapshot)
  | written (removal : Removal) (hit : Bool)
  | returned (outcome : UserOutcome)

namespace Phase

def passed : Phase → Option Removal
  | .cleared removal _ => some removal
  | .written removal true => some removal
  | _ => none

def isWritten : Phase → Bool
  | .written .. => true
  | _ => false

end Phase

def reservedUser (name : Username) : Bool := name = "_oidc" || name = "_build"

namespace UserCall

def begin : UserCall → Phase
  | .createUser id name isAdmin => .called (.createUser id name isAdmin)
  | .enableUser name =>
    if reservedUser name then .returned .reservedUser else .called (.enableUser name)
  | .remove removal =>
    if reservedUser removal.name then .returned .reservedUser else .called (.remove removal)

def statement (users : Users) : UserCall → Option (UserOutcome × Users)
  | .createUser id name isAdmin =>
    match users.insert ⟨id, name, isAdmin, none⟩ with
    | none => some (.conflict, users)
    | some users => some (.done, users)
  | .enableUser name =>
    match users.find name with
    | none => some (.noSuchUser, users)
    | some _ => some (.done, users.setDisabledAt name none)
  | .remove _ => none

theorem begin_cases (call : UserCall) :
    call.begin = .called call ∨ ∃ outcome, call.begin = .returned outcome := by
  cases call with
  | createUser id name isAdmin => exact .inl rfl
  | enableUser name =>
    by_cases reserved : reservedUser name = true
    · exact .inr ⟨_, if_pos reserved⟩
    · exact .inl (if_neg reserved)
  | remove removal =>
    by_cases reserved : reservedUser removal.name = true
    · exact .inr ⟨_, if_pos reserved⟩
    · exact .inl (if_neg reserved)

def target : UserCall → Username
  | .createUser _ name _ => name
  | .enableUser name => name
  | .remove removal => removal.name

theorem hasAdminBesides_statement {users after : Users} {call : UserCall} {outcome : UserOutcome}
    (ran : call.statement users = some (outcome, after)) {names : List Username}
    (admin : users.HasAdminBesides names) : after.HasAdminBesides names := by
  cases call with
  | remove removal => cases ran
  | createUser id name isAdmin =>
    cases inserted : users.insert ⟨id, name, isAdmin, none⟩ with
    | none =>
      simp only [statement, inserted] at ran
      cases ran
      exact admin
    | some table =>
      simp only [statement, inserted] at ran
      cases ran
      exact admin.insert inserted
  | enableUser name =>
    cases found : users.find name with
    | none =>
      simp only [statement, found] at ran
      cases ran
      exact admin
    | some row =>
      simp only [statement, found] at ran
      cases ran
      exact admin.enable

end UserCall

namespace Removal

def readAdmin (users : Users) (snapshot : Snapshot) (removal : Removal) : Phase :=
  match users.find removal.name with
  | none => .returned .noSuchUser
  | some row => if row.isAdmin then .admin removal snapshot else .cleared removal snapshot

def countAdmins (users : Users) (snapshot : Snapshot) (removal : Removal) : Phase :=
  if users.countOthers removal.name = 0 then .returned .lastAdmin else .cleared removal snapshot

@[simp] theorem readAdmin_isWritten (users : Users) (snapshot : Snapshot) (removal : Removal) :
    (removal.readAdmin users snapshot).isWritten = false := by
  unfold readAdmin
  split
  · rfl
  · split <;> rfl

@[simp] theorem countAdmins_isWritten (users : Users) (snapshot : Snapshot) (removal : Removal) :
    (removal.countAdmins users snapshot).isWritten = false := by
  unfold countAdmins
  split <;> rfl

/-- The `UPDATE` or `DELETE`: only the first asks how many rows it hit. -/
def write (users : Users) (removal : Removal) : Phase :=
  match removal, users.find removal.name with
  | .setUserDisabled .., none => .returned .noSuchUser
  | removal, found => .written removal found.isSome

end Removal

/-- The isolation that a transaction gets without asking for one. -/
def Backend.serialises : Backend → Bool
  | .sqlite | .libsql => true
  | .postgres => false

structure UsersState (T : Type) where
  users : Users
  version : ℕ
  calls : T → Phase

inductive UserAct where
  | call (call : UserCall)
  | statement
  | read
  | count
  | write
  | commit
  | fail
  | finish
  deriving DecidableEq, Repr

namespace UsersState

variable {T : Type} [DecidableEq T]

def snapshot (s : UsersState T) : Snapshot := ⟨s.users, s.version⟩

def goto (s : UsersState T) (t : T) (phase : Phase) : UsersState T :=
  { s with calls := Function.update s.calls t phase }

/-- Only a statement that hits a row makes a new version. -/
def commit (s : UsersState T) (t : T) (hit : Bool) (users : Users) (outcome : UserOutcome) :
    UsersState T :=
  if hit then ⟨users, s.version + 1, Function.update s.calls t (.returned outcome)⟩
  else s.goto t (.returned outcome)

/-- No other transaction holds the lock: of the row on Postgres, and else of the database. -/
def Free (backend : Backend) (s : UsersState T) (t : T) (name : Username) : Prop :=
  ∀ u, u ≠ t → ∀ removal hit, s.calls u = .written removal hit →
    backend.serialises = false ∧ (hit = true → removal.name ≠ name)

/-- A statement reads what is committed, or what its transaction saw first. -/
def sees (backend : Backend) (s : UsersState T) (snapshot : Snapshot) : Users :=
  if backend.serialises then snapshot.users else s.users

end UsersState

/-- One statement of one call. A serialisable transaction writes only on what it read. -/
inductive UserStep {T : Type} [DecidableEq T] (backend : Backend) :
    UsersState T → T × UserAct → UsersState T → Prop where
  | call {s t} (call : UserCall) (idle : s.calls t = .idle) :
      UserStep backend s (t, .call call) (s.goto t call.begin)
  | statement {s t call outcome users}
      (stands : s.calls t = .called call) (free : s.Free backend t call.target)
      (ran : call.statement s.users = some (outcome, users)) :
      UserStep backend s (t, .statement) (s.commit t (outcome = .done) users outcome)
  | read {s t removal} (stands : s.calls t = .called (.remove removal)) :
      UserStep backend s (t, .read) (s.goto t (removal.readAdmin s.users s.snapshot))
  | count {s t removal snapshot} (stands : s.calls t = .admin removal snapshot) :
      UserStep backend s (t, .count)
        (s.goto t (removal.countAdmins (s.sees backend snapshot) snapshot))
  | write {s t removal snapshot}
      (stands : s.calls t = .cleared removal snapshot) (free : s.Free backend t removal.name)
      (current : backend.serialises = true → snapshot.version = s.version) :
      UserStep backend s (t, .write) (s.goto t (removal.write s.users))
  | commit {s t removal hit} (stands : s.calls t = .written removal hit) :
      UserStep backend s (t, .commit) (s.commit t hit (removal.apply s.users) .done)
  | fail {s t} : UserStep backend s (t, .fail) (s.goto t (.returned .failed))
  | finish {s t outcome} (stands : s.calls t = .returned outcome) :
      UserStep backend s (t, .finish) (s.goto t .idle)

section Runs

variable {T : Type} [DecidableEq T] {backend : Backend} {s s' : UsersState T}

/-- What a call that passed the check can rely on, while the table is at a version. -/
def Phase.Sound (backend : Backend) (users : Users) (version : ℕ) : Phase → Prop
  | .admin _ snapshot =>
    snapshot.version ≤ version ∧ (snapshot.version = version → snapshot.users = users)
  | .cleared removal snapshot =>
    snapshot.version ≤ version ∧
      ((backend.serialises = true → snapshot.version = version) →
        users.HasAdminBesides [removal.name])
  | .written removal hit => hit = true → users.HasAdminBesides [removal.name]
  | _ => True

structure AdminKept (backend : Backend) (s : UsersState T) : Prop where
  enabled : s.users.HasAdminBesides []
  sound : ∀ t, (s.calls t).Sound backend s.users s.version
  -- a serialisable database has one writer at a time
  alone : backend.serialises = true →
    ∀ t u, (s.calls t).isWritten = true → (s.calls u).isWritten = true → t = u

/-- When a transaction that takes an enabled admin away commits, every other one that passed
the check for another name leaves a third enabled admin. -/
def LeavesThird (s : UsersState T) (t : T) : Prop :=
  ∀ removal, s.calls t = .written removal true →
    (∃ row ∈ s.users.rows, row.enabledAdmin = true ∧ row.name = removal.name) →
    ∀ u, u ≠ t → ∀ other, (s.calls u).passed = some other → other.name ≠ removal.name →
      s.users.HasAdminBesides [removal.name, other.name]

variable {users : Users} {version : ℕ} {removal : Removal} {phase : Phase} {t : T}

theorem sound_readAdmin (removal : Removal) (enabled : users.HasAdminBesides []) :
    (removal.readAdmin users ⟨users, version⟩).Sound backend users version := by
  unfold Removal.readAdmin
  split
  · trivial
  · rename_i row found
    split
    · exact ⟨le_rfl, fun _ => rfl⟩
    · rename_i ordinary
      refine ⟨le_rfl, fun _ => ?_⟩
      exact Users.hasAdminBesides_of_ordinary found (by simpa using ordinary) enabled

omit [DecidableEq T] in
theorem sound_countAdmins {snapshot : Snapshot}
    (read : (Phase.admin removal snapshot).Sound backend s.users s.version) :
    (removal.countAdmins (s.sees backend snapshot) snapshot).Sound backend s.users s.version := by
  unfold Removal.countAdmins
  split
  · trivial
  · rename_i others
    refine ⟨read.1, fun current => ?_⟩
    have counted := Users.hasAdminBesides_iff_count.mpr others
    unfold UsersState.sees at counted
    split at counted
    · rename_i serial
      rwa [read.2 (current serial)] at counted
    · exact counted

theorem sound_write (admin : users.HasAdminBesides [removal.name]) :
    (removal.write users).Sound backend users version := by
  unfold Removal.write
  split
  · trivial
  · exact fun _ => admin

theorem Phase.Sound.commit {after : Users} (sound : phase.Sound backend users version)
    (exclusive : backend.serialises = true → phase.isWritten = false)
    (keeps : backend.serialises = false → ∀ removal, phase.passed = some removal →
      users.HasAdminBesides [removal.name] → after.HasAdminBesides [removal.name]) :
    phase.Sound backend after (version + 1) := by
  cases phase with
  | admin removal snapshot =>
    refine ⟨sound.1.trans (Nat.le_succ _), fun ahead => ?_⟩
    exact absurd (ahead ▸ sound.1) (Nat.not_succ_le_self _)
  | cleared removal snapshot =>
    refine ⟨sound.1.trans (Nat.le_succ _), fun current => ?_⟩
    by_cases serial : backend.serialises = true
    · exact absurd (current serial ▸ sound.1) (Nat.not_succ_le_self _)
    · refine keeps (by simpa using serial) removal rfl ?_
      exact sound.2 fun serial' => absurd serial' serial
  | written removal hit =>
    intro hits
    subst hits
    have concurrent : backend.serialises = false := by
      by_contra serial
      exact absurd (exclusive (by simpa using serial)) (by simp [isWritten])
    exact keeps concurrent removal rfl (sound rfl)
  | _ => trivial

theorem AdminKept.goto (kept : AdminKept backend s) (sound : phase.Sound backend s.users s.version)
    (alone : backend.serialises = true → phase.isWritten = true →
      ∀ u, u ≠ t → (s.calls u).isWritten = false) :
    AdminKept backend (s.goto t phase) where
  enabled := kept.enabled
  sound := by
    intro u
    by_cases same : u = t
    · subst same
      simpa [UsersState.goto] using sound
    · simpa [UsersState.goto, update_of_ne same] using kept.sound u
  alone := by
    intro serial u v writing writing'
    by_cases same : u = t <;> by_cases same' : v = t
    · exact same.trans same'.symm
    · subst same
      simp only [UsersState.goto, update_self, update_of_ne same'] at writing writing'
      exact absurd writing' (by simp [alone serial writing v same'])
    · subst same'
      simp only [UsersState.goto, update_self, update_of_ne same] at writing writing'
      exact absurd writing (by simp [alone serial writing' u same])
    · simp only [UsersState.goto, update_of_ne same, update_of_ne same'] at writing writing'
      exact kept.alone serial u v writing writing'

theorem AdminKept.returned {outcome : UserOutcome} (kept : AdminKept backend s) :
    AdminKept backend (s.goto t (.returned outcome)) :=
  kept.goto trivial fun _ writing => (nomatch writing)

theorem AdminKept.commit {outcome : UserOutcome} {hit : Bool} (kept : AdminKept backend s)
    (enabled : users.HasAdminBesides [])
    (exclusive : backend.serialises = true → ∀ u, u ≠ t → (s.calls u).isWritten = false)
    (keeps : backend.serialises = false → ∀ u, u ≠ t → ∀ removal,
      (s.calls u).passed = some removal → s.users.HasAdminBesides [removal.name] →
      users.HasAdminBesides [removal.name]) :
    AdminKept backend (s.commit t hit users outcome) := by
  cases hit with
  | false => exact kept.returned
  | true =>
    refine ⟨enabled, fun u => ?_, fun serial u v writing => ?_⟩
    · by_cases same : u = t
      · subst same
        simp [UsersState.commit, Phase.Sound]
      · have sound := (kept.sound u).commit (fun serial => exclusive serial u same)
          (fun concurrent => keeps concurrent u same)
        simpa [UsersState.commit, update_of_ne same] using sound
    · have other : u ≠ t := by
        rintro rfl
        simp [UsersState.commit, Phase.isWritten] at writing
      simp only [UsersState.commit, if_true, update_of_ne other] at writing
      exact absurd writing (by simp [exclusive serial u other])

omit [DecidableEq T] in
theorem Phase.not_written_of_free {u : T} {name : Username} (free : s.Free backend t name)
    (serial : backend.serialises = true) (other : u ≠ t) : (s.calls u).isWritten = false := by
  cases stands : s.calls u with
  | written removal hit => exact absurd serial (by simp [(free u other removal hit stands).1])
  | _ => rfl

theorem adminKept_commit {hit : Bool} (kept : AdminKept backend s)
    (stands : s.calls t = .written removal hit)
    (third : backend.serialises = false → LeavesThird s t) :
    AdminKept backend (s.commit t hit (removal.apply s.users) .done) := by
  have exclusive : backend.serialises = true → ∀ u, u ≠ t → (s.calls u).isWritten = false := by
    intro serial u other
    by_contra writing
    exact other (kept.alone serial u t (by simpa using writing) (by rw [stands]; rfl))
  cases hit with
  | false => exact kept.returned
  | true =>
    have left : s.users.HasAdminBesides [removal.name] := by
      have sound := kept.sound t
      rw [stands] at sound
      exact sound rfl
    refine kept.commit (removal.hasAdminBesides_apply left) exclusive ?_
    intro concurrent u other passing stood admin
    refine removal.hasAdminBesides_apply ?_
    by_cases same : passing.name = removal.name
    · rw [same]
      exact left.mono (by simp)
    · by_cases takes : ∃ row ∈ s.users.rows, row.enabledAdmin = true ∧ row.name = removal.name
      · exact third concurrent removal stands takes u other passing stood same
      · obtain ⟨row, member, enabled, besides⟩ := admin
        refine ⟨row, member, enabled, ?_⟩
        intro taken
        rcases mem_cons.mp taken with own | its
        · exact takes ⟨row, member, enabled, own⟩
        · exact besides its

theorem adminKept_step {act : UserAct} (kept : AdminKept backend s)
    (third : backend.serialises = false → act = .commit → LeavesThird s t)
    (step : UserStep backend s (t, act) s') : AdminKept backend s' := by
  cases step with
  | call call idle =>
    rcases call.begin_cases with called | ⟨outcome, refused⟩
    · rw [called]
      exact kept.goto trivial fun _ writing => (nomatch writing)
    · rw [refused]
      exact kept.returned
  | statement stands free ran =>
    refine kept.commit (UserCall.hasAdminBesides_statement ran kept.enabled) ?_
      fun _ _ _ _ _ admin => UserCall.hasAdminBesides_statement ran admin
    exact fun serial u other => Phase.not_written_of_free free serial other
  | read stands =>
    refine kept.goto (sound_readAdmin _ kept.enabled) fun _ writing => ?_
    simp at writing
  | count stands =>
    have sound := kept.sound t
    rw [stands] at sound
    refine kept.goto (sound_countAdmins sound) fun _ writing => ?_
    simp at writing
  | write stands free current =>
    have sound := kept.sound t
    rw [stands] at sound
    refine kept.goto (sound_write (sound.2 current)) ?_
    exact fun serial _ u other => Phase.not_written_of_free free serial other
  | commit stands => exact adminKept_commit kept stands fun concurrent => third concurrent rfl
  | fail | finish stands => exact kept.goto trivial fun _ writing => (nomatch writing)

def KeepsThird (backend : Backend) (e : Event (UsersState T) (T × UserAct)) : Prop :=
  backend = .postgres → e.label.2 = .commit → LeavesThird e.pre e.label.1

/-- Every committed table has an enabled admin, on SQLite and libSQL in every run and on
Postgres in every run whose commits leave a third one where two removals overlap. -/
theorem enabled_admin_remains {start s : UsersState T}
    {events : List (Event (UsersState T) (T × UserAct))}
    (enabled : start.users.HasAdminBesides []) (idle : ∀ t, start.calls t = .idle)
    (run : Run (UserStep backend) start events s) (third : ∀ e ∈ events, KeepsThird backend e) :
    s.users.HasAdminBesides [] := by
  have init : AdminKept backend start := by
    refine ⟨enabled, fun t => ?_, fun _ t u writing => ?_⟩
    · rw [idle t]
      trivial
    · rw [idle t] at writing
      cases writing
  have keep (s : UsersState T) (label : T × UserAct) (s' : UsersState T)
      (kept : AdminKept backend s) (keeps : KeepsThird backend ⟨s, label, s'⟩)
      (step : UserStep backend s label s') : AdminKept backend s' := by
    refine adminKept_step kept ?_ step
    intro concurrent
    cases backend with
    | postgres => exact keeps rfl
    | sqlite | libsql => cases concurrent
  exact (run.invariant init keep third).enabled

end Runs

section Schedules

instance (users : Users) (names : List Username) : Decidable (users.HasAdminBesides names) :=
  inferInstanceAs (Decidable (∃ row ∈ users.rows, row.enabledAdmin = true ∧ row.name ∉ names))

def twoAdmins : Users where
  rows := [⟨"1", "alice", true, none⟩, ⟨"2", "bob", true, none⟩]
  unique := by decide

def threeAdmins : Users where
  rows := ⟨"3", "carol", true, none⟩ :: twoAdmins.rows
  unique := by decide

def atRest (users : Users) : UsersState Bool := ⟨users, 0, fun _ => .idle⟩

theorem free_of_unwritten {s : UsersState Bool} {t : Bool} {name : Username}
    (stands : (s.calls !t).isWritten = false) : s.Free .postgres t name := by
  intro u other removal hit writing
  obtain rfl : u = !t := Bool.eq_not.mpr other
  rw [writing] at stands
  cases stands

/-- Alice is disabled while another call is about to delete Bob, and Carol is left. -/
theorem third_admin_remains :
    ∃ events s, Run (UserStep .postgres) (atRest threeAdmins) events s ∧
      s.calls false = .cleared (.deleteUser "bob") ⟨threeAdmins, 0⟩ ∧
      s.users.find "alice" = some ⟨"1", "alice", true, some 5⟩ ∧ s.users.HasAdminBesides [] := by
  have run : Run (UserStep .postgres) (atRest threeAdmins) _ _ :=
    (((((((Run.nil.next (.call (t := false) (.remove (.deleteUser "bob")) rfl)).next
      (.read (t := false) rfl)).next (.count (t := false) rfl)).next
      (.call (t := true) (.remove (.setUserDisabled "alice" 5)) rfl)).next
      (.read (t := true) rfl)).next (.count (t := true) rfl)).next
      (.write (t := true) rfl (free_of_unwritten rfl) (fun serial => (nomatch serial)))).next
      (.commit (t := true) rfl)
  refine ⟨_, _, run, rfl, rfl, enabled_admin_remains (by decide) (fun _ => rfl) run ?_⟩
  refine forall_mem_cons.mpr ⟨?_, ?_⟩
  · intro _ _ removal stands _ u other passing stood _
    obtain rfl : u = false := Bool.eq_false_of_not_eq_true other
    cases stands
    cases stood
    exact ⟨⟨"3", "carol", true, none⟩, mem_cons_self, rfl, by decide⟩
  · simp [KeepsThird]

/-- On Postgres two admins are deleted at once, each counted by the other transaction. -/
theorem both_admins_removed :
    ∃ events s, Run (UserStep .postgres) (atRest twoAdmins) events s ∧
      (atRest twoAdmins).users.HasAdminBesides [] ∧ ¬s.users.HasAdminBesides [] := by
  have run : Run (UserStep .postgres) (atRest twoAdmins) _ _ :=
    (((((((((Run.nil.next (.call (t := false) (.remove (.deleteUser "bob")) rfl)).next
      (.read (t := false) rfl)).next (.count (t := false) rfl)).next
      (.call (t := true) (.remove (.deleteUser "alice")) rfl)).next
      (.read (t := true) rfl)).next (.count (t := true) rfl)).next
      (.write (t := true) rfl (free_of_unwritten rfl) (fun serial => (nomatch serial)))).next
      (.commit (t := true) rfl)).next
      (.write (t := false) rfl (free_of_unwritten rfl) (fun serial => (nomatch serial)))).next
      (.commit (t := false) rfl)
  exact ⟨_, _, run, by decide, by decide⟩

end Schedules

/-! The statements that begin and end credentials and accounts, and the web sessions. -/

namespace Database

section Users

variable (db : Database) (name : Username)

def isNamed (id : UserID) : Bool := (db.user id).any fun row => row.name = name

/-- What `SetUserDisabled` and `DeleteUser` check before they write. -/
def checkRemoval : Except UserOutcome Unit :=
  if reservedUser name then .error .reservedUser
  else
    match db.users.find? fun row => row.name = name with
    | none => .error .noSuchUser
    | some row =>
      if row.isAdmin && !db.users.any fun other => other.enabledAdmin && other.name ≠ name then
        .error .lastAdmin
      else .ok ()

def setDisabledAt (disabledAt : Option Seconds) : Database :=
  { db with
    users := db.users.map fun row => if row.name = name then { row with disabledAt } else row }

/-- `Store.SetUserDisabled` with `disabled`, once its transaction commits. -/
def setUserDisabled (now : Seconds) : Except UserOutcome Database :=
  match db.checkRemoval name with
  | .ok _ => .ok (db.setDisabledAt name (some now))
  | .error problem => .error problem

def setUserEnabled : Except UserOutcome Database :=
  if reservedUser name then .error .reservedUser
  else if db.users.any fun row => row.name = name then .ok (db.setDisabledAt name none)
  else .error .noSuchUser

theorem setUserEnabled_cases :
    db.setUserEnabled name = .ok (db.setDisabledAt name none) ∨
      ∃ problem, db.setUserEnabled name = .error problem := by
  unfold setUserEnabled
  split
  · exact .inr ⟨_, rfl⟩
  split
  · exact .inl rfl
  · exact .inr ⟨_, rfl⟩

def ownsKey (key : SshKeyRow) : Bool :=
  match key.owner with
  | .user id => db.isNamed name id
  | .deploy _ => false

/-- `DELETE FROM users` with the rows that the migrations make depend on a user. The locks
have no owner here. -/
def deleteUserRows : Database :=
  { db with
    users := db.users.filter fun row => row.name ≠ name
    tokens := db.tokens.filter fun row => !db.isNamed name row.userID
    repoPermissions := db.repoPermissions.filter fun row => !db.isNamed name row.userID
    sshKeys := db.sshKeys.filter fun key => !db.ownsKey name key
    sessions := db.sessions.filter fun row => !db.isNamed name row.userID }

def deleteUser : Except UserOutcome Database :=
  match db.checkRemoval name with
  | .ok _ => .ok (db.deleteUserRows name)
  | .error problem => .error problem

/-- `Store.CreateUser`; a taken name or id is refused. -/
def createUser (id : UserID) (isAdmin : Bool) : Option Database :=
  if db.users.any fun row => row.name = name || row.id = id then none
  else some { db with users := db.users ++ [⟨id, name, isAdmin, none⟩] }

end Users

section Enabled

variable {db : Database} {name : Username} {id : UserID}

def Enabled (db : Database) (id : UserID) : Prop :=
  ∃ user, db.user id = some user ∧ user.disabledAt = none

theorem isNamed_iff : db.isNamed name id = true ↔ ∃ user, db.user id = some user ∧ user.name = name := by
  simp [isNamed, Option.any_eq_true]

theorem user_setDisabledAt (disabledAt : Option Seconds) :
    (db.setDisabledAt name disabledAt).user id =
      (db.user id).map fun row => if row.name = name then { row with disabledAt } else row := by
  unfold setDisabledAt user
  rw [List.find?_map]
  congr 2
  funext row
  dsimp only [comp_apply]
  split <;> rfl

theorem user_deleteUserRows {user : UserRow} (found : db.user id = some user)
    (other : user.name ≠ name) : (db.deleteUserRows name).user id = some user := by
  obtain ⟨own, before, after, split, missed⟩ := List.find?_eq_some_iff_append.mp found
  refine List.find?_eq_some_iff_append.mpr ⟨own, before.filter fun row => row.name ≠ name,
    after.filter fun row => row.name ≠ name, ?_, ?_⟩
  · rw [deleteUserRows, split, filter_append, filter_cons_of_pos (by simpa using other)]
  · intro row member
    exact missed row (mem_of_mem_filter member)

theorem user_createUser {newID : UserID} {isAdmin : Bool} {user : UserRow}
    (found : db.user id = some user) :
    ((db.createUser name newID isAdmin).getD db).user id = some user := by
  unfold createUser
  split
  · exact found
  · unfold Database.user at found ⊢
    rw [getD_some, List.find?_append, found]
    rfl

theorem Enabled.of_users {db' : Database} (same : db'.users = db.users) (enabled : db'.Enabled id) :
    db.Enabled id := by
  unfold Enabled user at enabled ⊢
  rwa [same] at enabled

theorem not_enabled_of_disabled (now : Seconds) (named : db.isNamed name id = true) :
    ¬(db.setDisabledAt name (some now)).Enabled id := by
  rintro ⟨user, found, enabled⟩
  obtain ⟨row, present, same⟩ := isNamed_iff.mp named
  rw [user_setDisabledAt, present, map_some, if_pos same] at found
  cases found
  cases enabled

theorem Enabled.of_disabled {now : Seconds} (enabled : (db.setDisabledAt name (some now)).Enabled id) :
    db.Enabled id := by
  obtain ⟨user, found, usable⟩ := enabled
  rw [user_setDisabledAt] at found
  obtain ⟨row, present, rfl⟩ := map_eq_some_iff.mp found
  split at usable
  · cases usable
  · exact ⟨row, present, usable⟩

theorem enabled_setDisabledAt_of_not_named {disabledAt : Option Seconds}
    (other : db.isNamed name id = false) :
    (db.setDisabledAt name disabledAt).Enabled id ↔ db.Enabled id := by
  unfold Enabled
  rw [user_setDisabledAt]
  cases found : db.user id with
  | none => simp
  | some row =>
    have differs : row.name ≠ name := by
      intro same
      rw [isNamed_iff.mpr ⟨row, found, same⟩] at other
      cases other
    simp [differs]

theorem enabled_of_setUserEnabled (named : db.isNamed name id = true) :
    (db.setDisabledAt name none).Enabled id := by
  obtain ⟨row, present, same⟩ := isNamed_iff.mp named
  refine ⟨{ row with disabledAt := none }, ?_, rfl⟩
  rw [user_setDisabledAt, present, map_some, if_pos same]

end Enabled

section Keys

variable (db : Database)

/-- `Store.RevokeToken`, which keeps the time of an earlier revocation. -/
def revokeToken (id : TokenID) (now : Seconds) : Database :=
  { db with
    tokens := db.tokens.map fun row =>
      if row.id = id && row.revokedAt.isNone then { row with revokedAt := some now } else row }

def safeTokenIDPrefix (text : String) : Bool :=
  text ≠ "" && text.toList.all fun c => c.isAlphanum || c = '_' || c = '-'

/-- The one key that an id or the start of an id stands for. -/
def matchedKey (keyIDOrPrefix : String) : Option KeyID :=
  if safeTokenIDPrefix keyIDOrPrefix then
    match db.sshKeys.filter fun key => keyIDOrPrefix.toList.isPrefixOf key.id.toList with
    | [key] => some key.id
    | _ => none
  else none

def revokeSSHKey (keyIDOrPrefix : String) (now : Seconds) : Database :=
  match db.matchedKey keyIDOrPrefix with
  | none => db
  | some id =>
    { db with
      sshKeys := db.sshKeys.map fun key =>
        if key.id = id then { key with revokedAt := some now } else key }

/-- `Store.AddSSHKey` of a user; a taken id or fingerprint and an unknown user are refused. -/
def addUserKey (id : KeyID) (fingerprint : Fingerprint) (label : String) (userID : UserID) :
    Option Database :=
  if db.sshKeys.any (fun other => other.id = id || other.fingerprint = fingerprint) ||
      (db.user userID).isNone then none
  else some { db with sshKeys := db.sshKeys ++ [⟨id, fingerprint, label, .user userID, none, none⟩] }

end Keys

end Database

structure Session where
  userID : UserID
  name : Username
  isAdmin : Bool
  createdAt : Seconds
  expiresAt : Seconds
  deriving DecidableEq, Repr

namespace Database

section Sessions

variable (hashSessionID : String → String) (db : Database) (now : Seconds) (rawID : String)

/-- `Store.CreateSession`; an unknown user is refused. -/
def createSession (userID : UserID) (ttl : Seconds) : Option Database :=
  if db.sessions.any (fun row => row.idHash = hashSessionID rawID) || (db.user userID).isNone then none
  else
    some { db with sessions := db.sessions ++ [⟨hashSessionID rawID, userID, now, now + ttl, now⟩] }

/-- `Store.LookupSession`, which joins the user each time. -/
def lookupSession : Option Session :=
  match db.sessions.find? fun row => row.idHash = hashSessionID rawID && now < row.expiresAt with
  | none => none
  | some row =>
    match db.user row.userID with
    | none => none
    | some user =>
      if user.disabledAt.isSome then none
      else some ⟨row.userID, user.name, user.isAdmin, row.createdAt, row.expiresAt⟩

/-- `Store.TouchSession`, at most once a minute. -/
def touchSession (ttl : Seconds) : Database :=
  { db with
    sessions := db.sessions.map fun row =>
      if row.idHash = hashSessionID rawID && row.lastSeen ≤ now - 60 then
        { row with expiresAt := now + ttl, lastSeen := now }
      else row }

def deleteSessionByHash (idHash : String) : Database :=
  { db with sessions := db.sessions.filter fun row => row.idHash ≠ idHash }

def deleteSession : Database := db.deleteSessionByHash (hashSessionID rawID)

end Sessions

end Database

end BucketVcs.Auth
