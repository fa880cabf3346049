import BucketVcs.Importer

/-! `receivepack.completeReceivePack`: the old value check of every command, the
rejections of policies and hooks, and the status lines of the report. -/

namespace BucketVcs.ReceivePack

open Manifest RefStore RefNames List Function Results Prod

structure UpdateCommand where
  refname : RefName
  oldOID : OID
  newOID : OID
  deriving DecidableEq, Repr

/-- `""`, `"ok <ref>"` and `"ng <ref> <reason>"` of the source. -/
inductive Status where
  | pending
  | ok
  | ng (reason : String)
  deriving DecidableEq, Repr

abbrev Statuses := List (UpdateCommand × Status)

/-- A request the parser lets through: each ref is named once, by a name git accepts, with
two OIDs of which one is not null. -/
structure Request (checkRefFormat : RefName → Bool) where
  updates : List UpdateCommand
  isAtomic : Bool
  distinct : (updates.map UpdateCommand.refname).Nodup
  wellFormed : ∀ u ∈ updates, checkRefFormat u.refname = true ∧
    isHexOID u.oldOID = true ∧ isHexOID u.newOID = true ∧ ¬ (u.oldOID = nullOID ∧ u.newOID = nullOID)

def precheck (refs : RefMap) (u : UpdateCommand) : Status :=
  if u.oldOID = nullOID then
    if (refs.lookup u.refname).isSome then .ng "ref already exists" else .pending
  else if refs.lookup u.refname = some u.oldOID then .pending
  else .ng "stale info"

def precheckUpdates (listing : Except RefStore.Error RefMap) (updates : List UpdateCommand) :
    Statuses :=
  match listing with
  | .error _ => updates.map fun u => (u, .ng "backend-error")
  | .ok refs => updates.map fun u => (u, precheck refs u)

def settle (status : Status) (statuses : Statuses) : Statuses :=
  statuses.map fun line => if line.2 = .pending then (line.1, status) else line

def accepted (statuses : Statuses) : List UpdateCommand :=
  (statuses.filter fun line => line.2 = .pending).map Prod.fst

/-- The report a request ends with before anything is committed, or the commands that go
on. An atomic batch goes on as a whole or not at all. -/
def gate (isAtomic : Bool) (statuses : Statuses) : Statuses ⊕ Statuses :=
  if isAtomic && statuses.any fun line => line.2 ≠ .pending then
    .inl (settle (.ng "atomic-batch-failed") statuses)
  else if accepted statuses = [] then .inl statuses
  else .inr statuses

/-- What policies and hooks may do: turn pending commands down. -/
def Screens : Statuses → Statuses → Prop :=
  List.Forall₂ fun before after => after = before ∨
    (before.2 = .pending ∧ after.1 = before.1 ∧ ∃ reason, after.2 = .ng reason)

/-- `refUpdates`: the null OID deletes. -/
def refUpdates (commands : List UpdateCommand) : Updates :=
  commands.map fun u => (u.refname, u.newOID)

def wanted (oid : OID) : Option OID := if oid = nullOID then none else some oid

variable {statuses : Statuses} {u : UpdateCommand} {refs : RefMap} {isAtomic : Bool}
  {before after : Statuses}

theorem mem_accepted : u ∈ accepted statuses ↔ (u, .pending) ∈ statuses := by
  simp [accepted]

theorem precheck_pending :
    precheck refs u = .pending ↔ refs.lookup u.refname = wanted u.oldOID := by
  unfold precheck wanted
  by_cases created : u.oldOID = nullOID
  · cases refs.lookup u.refname <;> simp [created]
  · by_cases same : refs.lookup u.refname = some u.oldOID <;> simp [created]

theorem precheck_ne_ok (refs : RefMap) (u : UpdateCommand) : precheck refs u ≠ .ok := by
  unfold precheck
  split <;> split <;> simp

theorem precheckUpdates_commands (listing : Except Error RefMap) (updates : List UpdateCommand) :
    (precheckUpdates listing updates).map fst = updates := by
  cases listing <;> simp [precheckUpdates, comp_def]

theorem precheckUpdates_undecided (listing : Except Error RefMap)
    (updates : List UpdateCommand) : ∀ line ∈ precheckUpdates listing updates, line.2 ≠ .ok := by
  intro line member
  cases listing with
  | error cause =>
    obtain ⟨u, -, rfl⟩ := mem_map.mp member
    simp
  | ok refs =>
    obtain ⟨u, -, rfl⟩ := mem_map.mp member
    exact precheck_ne_ok refs u

theorem accepted_precheckUpdates {updates : List UpdateCommand}
    (member : u ∈ accepted (precheckUpdates (.ok refs) updates)) :
    refs.lookup u.refname = wanted u.oldOID := by
  obtain ⟨v, -, same⟩ := mem_map.mp (mem_accepted.mp member)
  obtain ⟨rfl, pending⟩ := mk.inj same
  exact precheck_pending.mp pending

theorem gate_inr {passed : Statuses} (through : gate isAtomic statuses = .inr passed) :
    passed = statuses := by
  unfold gate at through
  split at through
  · cases through
  · split at through
    · cases through
    · exact (Sum.inr.inj through).symm

theorem settle_ne_ok {reason : String} (undecided : ∀ line ∈ statuses, line.2 ≠ .ok) :
    ∀ line ∈ settle (.ng reason) statuses, line.2 ≠ .ok := by
  intro line member
  obtain ⟨before, inside, rfl⟩ := mem_map.mp member
  split
  · simp
  · exact undecided before inside

theorem gate_inl {report : Statuses} (refused : gate isAtomic statuses = .inl report)
    (undecided : ∀ line ∈ statuses, line.2 ≠ .ok) : ∀ line ∈ report, line.2 ≠ .ok := by
  unfold gate at refused
  split at refused
  · cases refused
    exact settle_ne_ok undecided
  · split at refused
    · cases refused
      exact undecided
    · cases refused

theorem screens_refl (statuses : Statuses) : Screens statuses statuses :=
  forall₂_same.mpr fun _ _ => .inl rfl

section

variable (screens : Screens before after)
include screens

theorem Screens.commands : after.map fst = before.map fst := by
  induction screens with
  | nil => rfl
  | cons step rest ih =>
    rcases step with rfl | ⟨-, same, -⟩
    · simp [ih]
    · simp [ih, same]

theorem Screens.undecided
    (undecided : ∀ line ∈ before, line.2 ≠ .ok) : ∀ line ∈ after, line.2 ≠ .ok := by
  intro line member
  obtain ⟨old, inside, step⟩ := Lists.exists_of_mem_right screens member
  rcases step with rfl | ⟨-, -, reason, same⟩
  · exact undecided line inside
  · simp [same]

theorem Screens.accepted (member : u ∈ accepted after) : u ∈ accepted before := by
  obtain ⟨old, inside, step⟩ := Lists.exists_of_mem_right screens (mem_accepted.mp member)
  rcases step with same | ⟨-, -, reason, refused⟩
  · exact mem_accepted.mpr (same ▸ inside)
  · cases refused

/-! What the updates of a request make of the refs. -/

end

theorem deletes_iff {oid : OID} (hex : isHexOID oid = true) :
    deletes oid = true ↔ oid = nullOID := by
  have occupied : oid ≠ "" := by
    rintro rfl
    exact absurd hex (by decide)
  simp [RefStore.deletes, occupied]

variable {commands : List UpdateCommand}

theorem lookup_refUpdates_of_not_mem {name : RefName}
    (outside : name ∉ commands.map UpdateCommand.refname) :
    (applyUpdates (refUpdates commands) refs).lookup name = refs.lookup name := by
  induction commands generalizing refs with
  | nil => rfl
  | cons first rest ih =>
    simp only [map_cons, mem_cons, not_or] at outside
    have step : applyUpdates (refUpdates (first :: rest)) refs =
        applyUpdates (refUpdates rest) (applyUpdate refs (first.refname, first.newOID)) := rfl
    rw [step, ih outside.2, lookup_applyUpdate, if_neg outside.1]

theorem lookup_refUpdates_of_mem
    (distinct : (commands.map UpdateCommand.refname).Nodup) (member : u ∈ commands)
    (hex : isHexOID u.newOID = true) :
    (applyUpdates (refUpdates commands) refs).lookup u.refname = wanted u.newOID := by
  induction commands generalizing refs with
  | nil => cases member
  | cons first rest ih =>
    simp only [map_cons, nodup_cons] at distinct
    have step : applyUpdates (refUpdates (first :: rest)) refs =
        applyUpdates (refUpdates rest) (applyUpdate refs (first.refname, first.newOID)) := rfl
    rw [step]
    rcases mem_cons.mp member with rfl | later
    · rw [lookup_refUpdates_of_not_mem distinct.1, lookup_applyUpdate, if_pos rfl, wanted]
      by_cases null : u.newOID = nullOID
      · rw [if_pos ((deletes_iff hex).mpr null), if_pos null]
      · rw [if_neg (mt (deletes_iff hex).mp null), if_neg null]
    · exact ih distinct.2 later

/-! `receivepack.completeReceivePack` up to its call of `BuildAndCommit`: every check of a
batch of commands in the order of the source, with the report each of them can end the
request with. A batch with the atomic capability is committed whole or not at all. -/

variable {checkRefFormat : RefName → Bool} {statuses : Statuses}
  {listing : Except RefStore.Error RefMap} {isAtomic : Bool} {rp : Request checkRefFormat}
  {updates : RefMap}

/-- What a policy check answers besides nil: a `PolicyError`, or the failure of the lookup
itself, which rejects as well. -/
inductive PolicyFailure where
  | blocked (text : String)
  | failed (cause : String)

def PolicyFailure.reason : PolicyFailure → String
  | .blocked text => text
  | .failed cause => "internal-error: " ++ cause

/-- `eng.Policy`, and the diff whose paths it checks. -/
structure Policy where
  checkUpdate : UpdateCommand → Except PolicyFailure Unit
  changedPaths : UpdateCommand → Except String (List String)
  checkPaths : RefName → List String → Except PolicyFailure Unit

/-- A pre-receive hook that rejects, with its `StatusLineReason`, or does not run. -/
inductive HookFailure where
  | rejected (line : String)
  | failed

def HookFailure.reason : HookFailure → String
  | .rejected line => line
  | .failed => "hook internal error"

/-- What the request calls: git on the bare repository, and the optional policy and hook
services. `indexPackStrict` is `none` when no pack came with the commands. -/
structure Engine where
  indexPackStrict : Option (Except String Unit)
  revListNotAll : List OID → Except String (List OID)
  policy : Option Policy
  runPreReceive : Option (List UpdateCommand → Except HookFailure Unit)
  applyRefUpdateInBare : UpdateCommand → Except String Unit

structure Report where
  unpack : String
  lines : Statuses

def anyStatusNonEmpty (statuses : Statuses) : Bool := statuses.any fun line => line.2 ≠ .pending

def allStatusesNonEmpty (statuses : Statuses) : Bool := statuses.all fun line => line.2 ≠ .pending

def allOK (listing : Except RefStore.Error RefMap) (updates : List UpdateCommand) : Bool :=
  match listing with
  | .error _ => false
  | .ok refs => updates.all fun u => precheck refs u = .pending

def poisoned : Status := .ng "atomic-batch-failed"

def precheckBatch (listing : Except RefStore.Error RefMap) (isAtomic : Bool)
    (updates : List UpdateCommand) : Except Report Statuses :=
  if isAtomic && !allOK listing updates then
    .error ⟨"ok", settle poisoned (precheckUpdates listing updates)⟩
  else if allStatusesNonEmpty (precheckUpdates listing updates) then
    .error ⟨"ok", precheckUpdates listing updates⟩
  else .ok (precheckUpdates listing updates)

def indexInbound (eng : Engine) : Except Report Unit :=
  match eng.indexPackStrict with
  | some (.error cause) => .error ⟨"invalid-pack: " ++ cause, []⟩
  | _ => .ok ()

/-- Step 8: without a pack the new tips are reachable already. -/
def checkConnectivity (eng : Engine) (statuses : Statuses) : Except Report Unit :=
  match ((accepted statuses).map UpdateCommand.newOID).filter (· ≠ nullOID) with
  | [] => .ok ()
  | newOIDs =>
    match eng.revListNotAll newOIDs with
    | .error cause => .error ⟨"missing-connectivity: " ++ cause, []⟩
    | .ok out =>
      if eng.indexPackStrict.isNone && !out.isEmpty then
        .error ⟨"missing-connectivity: pack required for new objects", []⟩
      else .ok ()

def checkPathsForUpdate (policy : Policy) (u : UpdateCommand) : Status :=
  match policy.changedPaths u with
  | .error cause => .ng ("internal-error: " ++ cause)
  | .ok paths =>
    match policy.checkPaths u.refname paths with
    | .error failure => .ng failure.reason
    | .ok () => .pending

/-- The body of the policy loop: the protected refs, then the paths. -/
def checkPolicy (policy : Policy) (u : UpdateCommand) : Status :=
  match policy.checkUpdate u with
  | .error failure => .ng failure.reason
  | .ok () => checkPathsForUpdate policy u

def checkPolicies (policy : Policy) (statuses : Statuses) : Statuses :=
  statuses.map fun line =>
    if line.2 = .pending then (line.1, checkPolicy policy line.1) else line

/-- The statuses after step 8b, whose loop runs when there is a policy service. -/
def screened (policy : Option Policy) (statuses : Statuses) : Statuses :=
  match policy with
  | none => statuses
  | some policy => checkPolicies policy statuses

def enforcePolicy (isAtomic : Bool) (statuses : Statuses) : Option Policy → Except Report Statuses
  | none => .ok statuses
  | some policy =>
    let checked := checkPolicies policy statuses
    if isAtomic && anyStatusNonEmpty checked && !allStatusesNonEmpty checked then
      .error ⟨"ok", settle poisoned checked⟩
    else if allStatusesNonEmpty checked then .error ⟨"ok", checked⟩
    else .ok checked

/-- Step 8c: one hook run for all accepted commands. -/
def preReceive (statuses : Statuses) :
    Option (List UpdateCommand → Except HookFailure Unit) → Except Report Unit
  | none => .ok ()
  | some run =>
    if accepted statuses = [] then .ok ()
    else match run (accepted statuses) with
      | .ok () => .ok ()
      | .error failure => .error ⟨"ok", settle (.ng failure.reason) statuses⟩

/-- Step 9: a map, so a ref has one new value. -/
def updatesMap (commands : List UpdateCommand) : RefMap := Dict.insertAll (refUpdates commands) ∅

def applyRefs (eng : Engine) (statuses : Statuses) : List UpdateCommand → Except Report Unit
  | [] => .ok ()
  | u :: rest =>
    match eng.applyRefUpdateInBare u with
    | .error _ => .error ⟨"ok", settle (.ng "internal-mirror-error") statuses⟩
    | .ok () => applyRefs eng statuses rest

/-- A request up to `BuildAndCommit`: the report it ends with before, or the arguments of
the call, `refUpdates` and the status of every command. -/
def completeReceivePack (eng : Engine) (listing : Except RefStore.Error RefMap)
    (rp : Request checkRefFormat) :
    Except Report (RefMap × Statuses) := do
  let prechecked ← precheckBatch listing rp.isAtomic rp.updates
  indexInbound eng
  checkConnectivity eng prechecked
  let statuses ← enforcePolicy rp.isAtomic prechecked eng.policy
  preReceive statuses eng.runPreReceive
  if updatesMap (accepted statuses) = ∅ then .error ⟨"ok", statuses⟩
  else do
    applyRefs eng statuses (accepted statuses)
    .ok (updatesMap (accepted statuses), statuses)

def commandStatus (eng : Engine) (listing : Except RefStore.Error RefMap) (u : UpdateCommand) :
    Status :=
  match listing with
  | .error _ => .ng "backend-error"
  | .ok refs =>
    if precheck refs u = .pending then
      match eng.policy with
      | none => .pending
      | some policy => checkPolicy policy u
    else precheck refs u

variable {eng : Engine}

theorem anyStatusNonEmpty_eq_false :
    anyStatusNonEmpty statuses = false ↔ ∀ line ∈ statuses, line.2 = .pending := by
  simp [anyStatusNonEmpty]

theorem allStatusesNonEmpty_iff : allStatusesNonEmpty statuses = true ↔ accepted statuses = [] := by
  simp [allStatusesNonEmpty, accepted]

theorem precheckBatch_ok {updates : List UpdateCommand}
    (passed : precheckBatch listing isAtomic updates = .ok statuses) :
    statuses = precheckUpdates listing updates ∧ accepted statuses ≠ [] ∧
      (isAtomic = true → ∀ line ∈ statuses, line.2 = .pending) := by
  unfold precheckBatch at passed
  split at passed
  · cases passed
  · next unpoisoned =>
      split at passed
      · cases passed
      · next some_left =>
          cases passed
          refine ⟨rfl, mt allStatusesNonEmpty_iff.mpr some_left, ?_⟩
          intro atomic
          cases listing with
          | error cause => simp [atomic, allOK] at unpoisoned
          | ok refs =>
            have all : ∀ u ∈ updates, precheck refs u = .pending := by
              simpa [atomic, allOK] using unpoisoned
            intro line member
            obtain ⟨u, inside, rfl⟩ := mem_map.mp member
            exact all u inside

theorem enforcePolicy_ok {before : Statuses} {policy : Option Policy}
    (passed : enforcePolicy isAtomic before policy = .ok statuses) :
    statuses = screened policy before ∧
      (policy.isSome → accepted statuses ≠ [] ∧
        (isAtomic = true → ∀ line ∈ statuses, line.2 = .pending)) := by
  cases policy with
  | none => cases passed; simp [screened]
  | some p =>
    simp only [enforcePolicy] at passed
    split at passed
    · cases passed
    · next unpoisoned =>
        split at passed
        · cases passed
        · next some_left =>
            cases passed
            refine ⟨rfl, fun _ => ⟨mt allStatusesNonEmpty_iff.mpr some_left, ?_⟩⟩
            intro atomic
            apply anyStatusNonEmpty_eq_false.mp
            simpa [atomic, some_left] using unpoisoned

section

variable (called : completeReceivePack eng listing rp = .ok (updates, statuses))

include called

/-- What a request that reaches `BuildAndCommit` went through. -/
theorem completeReceivePack_ok :
    precheckBatch listing rp.isAtomic rp.updates = .ok (precheckUpdates listing rp.updates) ∧
      enforcePolicy rp.isAtomic (precheckUpdates listing rp.updates) eng.policy = .ok statuses ∧
      updates = updatesMap (accepted statuses) ∧ accepted statuses ≠ [] := by
  obtain ⟨prechecked, checked, index⟩ := bind_ok called
  obtain ⟨⟨⟩, -, connect⟩ := bind_ok index
  obtain ⟨⟨⟩, -, enforce⟩ := bind_ok connect
  obtain ⟨left, enforced, hook⟩ := bind_ok enforce
  obtain ⟨⟨⟩, -, commit⟩ := bind_ok hook
  obtain ⟨rfl, -, -⟩ := precheckBatch_ok checked
  split at commit
  · cases commit
  · next occupied =>
      obtain ⟨⟨⟩, -, done⟩ := bind_ok commit
      cases done
      refine ⟨checked, enforced, rfl, ?_⟩
      intro empty
      rw [empty] at occupied
      exact occupied rfl

theorem pending_of_atomic (atomic : rp.isAtomic = true) : ∀ line ∈ statuses, line.2 = .pending := by
  obtain ⟨checked, enforced, -, -⟩ := completeReceivePack_ok called
  obtain ⟨same, policed⟩ := enforcePolicy_ok enforced
  cases service : eng.policy with
  | none =>
    rw [same, service]
    exact (precheckBatch_ok checked).2.2 atomic
  | some policy => exact (policed (by simp [service])).2 atomic

theorem statuses_eq : statuses = rp.updates.map fun u => (u, commandStatus eng listing u) := by
  obtain ⟨-, enforced, -, -⟩ := completeReceivePack_ok called
  rw [(enforcePolicy_ok enforced).1]
  cases listing with
  | error cause =>
    cases eng.policy <;> simp [screened, precheckUpdates, checkPolicies, commandStatus]
  | ok refs =>
    cases service : eng.policy with
    | none =>
      apply map_congr_left
      intro u member
      by_cases pending : precheck refs u = .pending <;> simp [commandStatus, service]
    | some policy =>
      simp only [screened, precheckUpdates, checkPolicies, List.map_map]
      apply map_congr_left
      intro u member
      by_cases pending : precheck refs u = .pending <;> simp [commandStatus, service, pending]

end

theorem lookup_updatesMap
    (distinct : (commands.map UpdateCommand.refname).Nodup) (name : RefName) (oid : OID) :
    (updatesMap commands).lookup name = some oid ↔
      ∃ u ∈ commands, u.refname = name ∧ u.newOID = oid := by
  have keyed : ((refUpdates commands).map fst).Nodup := by
    simpa [refUpdates, comp_def] using distinct
  rw [updatesMap, Dict.lookup_ofEntries keyed]
  simp [refUpdates]

theorem distinct_accepted (distinct : ((statuses.map fst).map UpdateCommand.refname).Nodup) :
    ((accepted statuses).map UpdateCommand.refname).Nodup := by
  have sub : (accepted statuses).Sublist (statuses.map fst) :=
    filter_sublist.map fst
  exact distinct.sublist (sub.map UpdateCommand.refname)

def twoCreates (isAtomic : Bool) : Request fun _ => true where
  updates := [⟨[0x61], nullOID, objectOne⟩, ⟨[0x62], nullOID, objectOne⟩]
  isAtomic := isAtomic
  distinct := by decide
  wellFormed := by decide

def blockingEngine (blocked : List RefName) : Engine where
  indexPackStrict := some (.ok ())
  revListNotAll := fun _ => .ok []
  policy := some
    { checkUpdate := fun u => if u.refname ∈ blocked then .error (.blocked "protected") else .ok ()
      changedPaths := fun _ => .ok []
      checkPaths := fun _ _ => .ok () }
  runPreReceive := some fun _ => .ok ()
  applyRefUpdateInBare := fun _ => .ok ()

-- The same rejection poisons the whole atomic batch.
example : completeReceivePack (blockingEngine [[0x61]]) (.ok ∅) (twoCreates true) =
    .error ⟨"ok", [(⟨[0x61], nullOID, objectOne⟩, .ng "protected"),
      (⟨[0x62], nullOID, objectOne⟩, poisoned)]⟩ := rfl

end BucketVcs.ReceivePack
