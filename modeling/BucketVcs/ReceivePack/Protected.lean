import BucketVcs.Importer.DefaultBranch
import BucketVcs.Lib.Run
import BucketVcs.Policy.Match
import BucketVcs.ReceivePack

/-! Protected refs over whole sequences of pushes: `CheckUpdate`, the requests that a gateway serves
one after the other, and how a ref moves that a rule keeps from deletion and force-push. -/

namespace BucketVcs.ReceivePack

open Manifest RefStore RefNames Importer BucketVcs.Policy Transition List

/-- A row of `protected_refs`. -/
structure ProtectedRef where
  refnamePattern : Text
  blockDeletion : Bool
  blockForcePush : Bool
  deriving DecidableEq, Repr

structure PolicyError where
  refname : Text
  matchedPattern : Text
  reason : String
  oldOID : OID
  newOID : OID
  deriving DecidableEq, Repr

def shown (text : Text) : String := String.ofList (text.map fun byte => Char.ofNat byte.toNat)

def PolicyError.error (e : PolicyError) : String :=
  "protected-branch: " ++ e.reason ++ " by pattern " ++ shown e.matchedPattern ++ " (refname=" ++
    shown e.refname ++ ")"

section CheckUpdate

variable (pathMatch : PathMatch) (isFastForward : OID → OID → Except String Bool)

def blockedBy (rule : ProtectedRef) (u : UpdateCommand) (reason : String) : PolicyFailure :=
  .blocked (PolicyError.error ⟨u.refname, rule.refnamePattern, reason, u.oldOID, u.newOID⟩)

def checkMatched (rule : ProtectedRef) (u : UpdateCommand) (next : Except PolicyFailure Unit) :
    Except PolicyFailure Unit :=
  if u.newOID = nullOID && rule.blockDeletion then .error (blockedBy rule u "deletion blocked")
  else if !(u.newOID = nullOID) && !(u.oldOID = nullOID) && rule.blockForcePush then
    match isFastForward u.oldOID u.newOID with
    | .error cause =>
      .error (.failed ("policy: merge-base check for " ++ shown u.refname ++ ": " ++ cause))
    | .ok false => .error (blockedBy rule u "non-fast-forward push blocked")
    | .ok true => next
  else next

def checkProtectedRefs (u : UpdateCommand) : List ProtectedRef → Except PolicyFailure Unit
  | [] => .ok ()
  | rule :: rest =>
    match pathMatch rule.refnamePattern u.refname with
    | .error .badPattern =>
      .error (.failed ("policy: pattern \"" ++ shown rule.refnamePattern ++
        "\" invalid: syntax error in pattern"))
    | .ok false => checkProtectedRefs u rest
    | .ok true => checkMatched isFastForward rule u (checkProtectedRefs u rest)

def checkUpdate (stored : Except String (List ProtectedRef)) (u : UpdateCommand) :
    Except PolicyFailure Unit :=
  match stored with
  | .error cause => .error (.failed cause)
  | .ok rules => checkProtectedRefs pathMatch isFastForward u rules

variable {pathMatch isFastForward} {rule : ProtectedRef} {u : UpdateCommand}

theorem checkMatched_ok {next : Except PolicyFailure Unit}
    (passed : checkMatched isFastForward rule u next = .ok ()) :
    next = .ok () ∧ (u.newOID = nullOID → rule.blockDeletion = false) ∧
      (u.newOID ≠ nullOID → u.oldOID ≠ nullOID → rule.blockForcePush = true →
        isFastForward u.oldOID u.newOID = .ok true) := by
  unfold checkMatched at passed
  split at passed
  · cases passed
  · rename_i deletion
    split at passed
    · split at passed
      · cases passed
      · cases passed
      · rename_i forward
        exact ⟨passed, by simpa using deletion, fun _ _ _ => forward⟩
    · rename_i update
      refine ⟨passed, by simpa using deletion, ?_⟩
      intro upsert change blocks
      simp [upsert, change, blocks] at update

theorem checkProtectedRefs_ok {rules : List ProtectedRef}
    (passed : checkProtectedRefs pathMatch isFastForward u rules = .ok ()) (listed : rule ∈ rules)
    (applies : pathMatch rule.refnamePattern u.refname = .ok true) :
    (u.newOID = nullOID → rule.blockDeletion = false) ∧
      (u.newOID ≠ nullOID → u.oldOID ≠ nullOID → rule.blockForcePush = true →
        isFastForward u.oldOID u.newOID = .ok true) := by
  induction rules with
  | nil => cases listed
  | cons first rest ih =>
    unfold checkProtectedRefs at passed
    split at passed
    · cases passed
    · rename_i skipped
      rcases mem_cons.mp listed with rfl | later
      · cases applies.symm.trans skipped
      · exact ih passed later
    · obtain ⟨rest_passed, here⟩ := checkMatched_ok passed
      rcases mem_cons.mp listed with rfl | later
      · exact here
      · exact ih rest_passed later

end CheckUpdate

section Serving

/-- What `CheckUpdate` reads for one request: the rules or an error, and a `merge-base` that decides
ancestry or fails; and the checks of the paths, which are others. -/
structure Guard (rules : List ProtectedRef) (ancestor : OID → OID → Prop) where
  list : UpdateCommand → Except String (List ProtectedRef)
  listed : ∀ u found, list u = .ok found → found = rules
  isFastForward : OID → OID → Except String Bool
  decides : ∀ old new verdict, isFastForward old new = .ok verdict →
    (verdict = true ↔ ancestor old new)
  changedPaths : UpdateCommand → Except String (List String)
  checkPaths : RefName → List String → Except PolicyFailure Unit

variable (h : Hashing) (git : Git) (pathMatch : PathMatch) (rules : List ProtectedRef)
  (ancestor : OID → OID → Prop)

variable {rules ancestor} in
def Guard.policy (guard : Guard rules ancestor) : Policy where
  checkUpdate := fun u => checkUpdate pathMatch guard.isFastForward (guard.list u) u
  changedPaths := guard.changedPaths
  checkPaths := guard.checkPaths

/-- The request calls `BuildAndCommit` with these updates. -/
def Calls (s : Snapshot) (rp : Request git.checkRefFormat) (updates : RefMap) : Prop :=
  ∃ (guard : Guard rules ancestor) (eng : Engine) (statuses : Statuses),
    eng.policy = some (guard.policy pathMatch) ∧
      completeReceivePack eng (RefStore.list h s.objects s.body) rp = .ok (updates, statuses)

/-- One request from its root read to its end, with no other writer in between. It ends before
`BuildAndCommit`, in it, after some of the shards were put, or with the new root. -/
inductive Serve (s : Snapshot) (rp : Request git.checkRefFormat) : Snapshot → Prop
  | turnedDown (guard : Guard rules ancestor) (eng : Engine)
      (policed : eng.policy = some (guard.policy pathMatch)) {report : Report}
      (stopped : completeReceivePack eng (RefStore.list h s.objects s.body) rp = .error report) :
      Serve s rp s
  | refused {updates : RefMap} (called : Calls h git pathMatch rules ancestor s rp updates)
      (base : Root) (read : base.body = s.body) (bare : Bare) (made : Repack) (patch : Patch)
      {cause : Importer.Error}
      (failed : prepare h git s.objects base bare (Dict.entries updates) made patch = .error cause) :
      Serve s rp s
  | uncommitted {updates : RefMap} (called : Calls h git pathMatch rules ancestor s rp updates)
      (base : Root) (read : base.body = s.body) (bare : Bare) (made : Repack) (patch : Patch)
      {plan : Plan}
      (built : prepare h git s.objects base bare (Dict.entries updates) made patch = .ok plan)
      {put : List ShardWrite} (some_put : put <+: plan.writes) :
      Serve s rp ⟨putShards put s.objects, s.body⟩
  | committed {updates : RefMap} (called : Calls h git pathMatch rules ancestor s rp updates)
      (base : Root) (read : base.body = s.body) (bare : Bare) (made : Repack) (patch : Patch)
      {plan : Plan}
      (built : prepare h git s.objects base bare (Dict.entries updates) made patch = .ok plan) :
      Serve s rp ⟨putShards plan.writes s.objects, plan.body⟩

/-- No command creates another ref that JSON stores under the name. -/
def Spares {checkRefFormat : RefName → Bool} (name : RefName) (rp : Request checkRefFormat) : Prop :=
  ∀ u ∈ rp.updates, u.oldOID = nullOID → Utf8.coerce u.refname = name → u.refname = name

/-- Both roots list their refs, and a ref that the first has is in the second with the same value
or a descendant of it. -/
def Forward (name : RefName) (s s' : Snapshot) : Prop :=
  ∃ before after, RefStore.list h s.objects s.body = .ok before ∧
    RefStore.list h s'.objects s'.body = .ok after ∧
    ∀ oid, before.lookup name = some oid →
      ∃ later, after.lookup name = some later ∧ (later = oid ∨ ancestor oid later)

end Serving

section Steps

variable {h : Hashing} {git : Git} {pathMatch : PathMatch} {rules : List ProtectedRef}
  {ancestor : OID → OID → Prop} {s : Snapshot} {rp : Request git.checkRefFormat} {updates : RefMap}
  {before : RefMap} {name : RefName} {value : Option OID}

theorem Calls.passed (called : Calls h git pathMatch rules ancestor s rp updates)
    (listed : list h s.objects s.body = .ok before) {oid : OID}
    (set : (name, oid) ∈ Dict.entries updates) :
    ∃ u ∈ rp.updates, u.refname = name ∧ u.newOID = oid ∧ precheck before u = .pending ∧
      ∃ guard : Guard rules ancestor,
        checkProtectedRefs pathMatch guard.isFastForward u rules = .ok () := by
  obtain ⟨guard, eng, statuses, policed, called⟩ := called
  have same := statuses_eq called
  have commands : statuses.map Prod.fst = rp.updates := by simp [same, Function.comp_def]
  obtain ⟨-, -, rfl, -⟩ := completeReceivePack_ok called
  rw [Dict.mem_entries, lookup_updatesMap (distinct_accepted (commands ▸ rp.distinct))] at set
  obtain ⟨u, member, named, wants⟩ := set
  have pending := mem_accepted.mp member
  rw [same, listed] at pending
  obtain ⟨u', inside, line⟩ := List.mem_map.mp pending
  obtain ⟨rfl, status⟩ := Prod.mk.inj line
  simp only [commandStatus, policed] at status
  split at status
  · rename_i unchanged
    refine ⟨u', inside, named, wants, unchanged, guard, ?_⟩
    unfold checkPolicy Guard.policy checkUpdate at status
    cases found : guard.list u' with
    | error cause => simp [found] at status
    | ok stored =>
      rw [guard.listed u' stored found] at found
      simp only [found] at status
      split at status
      · cases status
      · rename_i passed
        exact passed
  · rename_i rejected
    exact absurd status rejected

theorem precheck_existing {u : UpdateCommand} (passed : precheck before u = .pending)
    (change : u.oldOID ≠ nullOID) : before.lookup u.refname = some u.oldOID := by
  unfold precheck at passed
  rw [if_neg change] at passed
  split at passed
  · assumption
  · cases passed

theorem precheck_created {u : UpdateCommand} (passed : precheck before u = .pending)
    (creates : u.oldOID = nullOID) : before.lookup u.refname = none := by
  unfold precheck at passed
  rw [if_pos creates] at passed
  split at passed
  · cases passed
  · rename_i absent
    simpa using absent

theorem Calls.alone (called : Calls h git pathMatch rules ancestor s rp updates)
    (carries : Carries h s name value) (spares : Spares name rp) :
    Alone name (Dict.entries updates) := by
  obtain ⟨before, listed, -⟩ := carries.list
  rintro ⟨other, oid⟩ set - same
  obtain ⟨u, member, rfl, -, passed, -⟩ := called.passed listed set
  by_cases creates : u.oldOID = nullOID
  · exact spares u member creates same
  · -- the ref exists, so its name came out of JSON
    have present := Finmap.mem_of_lookup_eq_some (precheck_existing passed creates)
    have unchanged : Utf8.coerce u.refname = u.refname := carries.names listed _ present
    exact unchanged.symm.trans same

theorem Calls.forward (called : Calls h git pathMatch rules ancestor s rp updates)
    {rule : ProtectedRef} (listed : rule ∈ rules)
    (applies : pathMatch rule.refnamePattern name = .ok true) (keeps : rule.blockDeletion = true)
    (moves : rule.blockForcePush = true) {oid : OID} (carries : Carries h s name (some oid)) :
    ∃ later, moved name (Dict.entries updates) (some oid) = some later ∧
      (later = oid ∨ ancestor oid later) := by
  obtain ⟨before, read, found⟩ := carries.list
  rw [← found, ← lookup_applyUpdates]
  by_cases touched : name ∈ (Dict.entries updates).map Prod.fst
  · obtain ⟨⟨_, new⟩, set, rfl⟩ := List.mem_map.mp touched
    obtain ⟨u, member, same, wants, passed, guard, checked⟩ := called.passed read set
    rw [lookup_applyUpdates_of_mem (Dict.nodup_entries updates) set]
    obtain ⟨deletion, change⟩ := checkProtectedRefs_ok checked listed (same ▸ applies)
    -- the ref exists, so the command names its value; it is no deletion, so it moves forward
    have existing : u.oldOID ≠ nullOID := by
      intro creates
      have absent := precheck_created passed creates
      rw [same, found] at absent
      cases absent
    have current : oid = u.oldOID := by
      have stated := precheck_existing passed existing
      rw [same, found] at stated
      exact Option.some.inj stated
    have upsert : u.newOID ≠ nullOID := by
      intro deletes
      rw [deletion deletes] at keeps
      cases keeps
    have hex := (rp.wellFormed u member).2.2.1
    have kept : deletes new = false := by
      rw [← wants]
      exact Bool.eq_false_iff.mpr fun gone => upsert ((deletes_iff hex).mp gone)
    refine ⟨new, by simp [kept], .inr ?_⟩
    rw [current, ← wants]
    exact (guard.decides _ _ _ (change upsert existing moves)).mp rfl
  · rw [lookup_applyUpdates_of_not_mem touched, found]
    exact ⟨oid, rfl, .inl rfl⟩

/-- One request: the ref is carried on, by what its updates make of it. -/
theorem Serve.carries {s' : Snapshot} (served : Serve h git pathMatch rules ancestor s rp s')
    (carries : Carries h s name value) (named : Utf8.Valid name) (spares : Spares name rp) :
    ∃ later, Carries h s' name later ∧
      (later = value ∨ ∃ updates, Calls h git pathMatch rules ancestor s rp updates ∧
        later = moved name (Dict.entries updates) value) := by
  cases served with
  | turnedDown guard eng policed stopped | refused called base read bare made patch failed =>
    exact ⟨value, carries, .inl rfl⟩
  | uncommitted called base read bare made patch built some_put =>
    obtain ⟨rfl, -, stage, prepared⟩ := prepare_ok built
    have staged := prepared.staged
    rw [read] at staged
    have wellFormed := carries.wellFormed staged
    rw [← prepared.writes] at wellFormed
    obtain ⟨addressed, grows, -⟩ := putShards_spec carries.addressed
      fun write member => wellFormed write (some_put.subset member)
    exact ⟨value, carries.grows grows addressed, .inl rfl⟩
  | committed called base read bare made patch built =>
    obtain ⟨rfl, sent, stage, prepared⟩ := prepare_ok built
    have published := prepared.republish read
    rw [sent] at published
    exact ⟨_, carries.republish (called.alone carries spares) named published,
      .inr ⟨_, called, rfl⟩⟩

end Steps

section Runs

variable {h : Hashing} {git : Git} {pathMatch : PathMatch} {rules : List ProtectedRef}
  {ancestor : OID → OID → Prop} {start s : Snapshot}
  {events : List (Event Snapshot (Request git.checkRefFormat))} {name : RefName}

theorem carries_throughout (run : Run (Serve h git pathMatch rules ancestor) start events s)
    {value : Option OID} (carries : Carries h start name value) (named : Utf8.Valid name)
    (spares : ∀ e ∈ events, Spares name e.label) :
    ∀ e ∈ events, (∃ before, Carries h e.pre name before) ∧
      Serve h git pathMatch rules ancestor e.pre e.label e.post := by
  refine run.every_event (I := fun s => ∃ value, Carries h s name value) ⟨value, carries⟩ ?_ ?_ spares
  · rintro s rp s' ⟨value, carries⟩ spared served
    obtain ⟨later, carries', -⟩ := served.carries carries named spared
    exact ⟨later, carries'⟩
  · rintro s rp s' carries - served
    exact ⟨carries, served⟩

/-- A protected ref moves only forward, in every sequence of pushes that creates no ref which JSON
stores under its name. -/
theorem protected_moves_forward (h : Hashing) (git : Git) (pathMatch : PathMatch)
    (rules : List ProtectedRef) (ancestor : OID → OID → Prop) (name : RefName) (rule : ProtectedRef)
    (listed : rule ∈ rules) (applies : pathMatch rule.refnamePattern name = .ok true)
    (keeps : rule.blockDeletion = true) (moves : rule.blockForcePush = true)
    (start s : Snapshot) (refs : RefMap) (holds : Holds h start.objects start.body refs)
    (addressed : Addressed h start.objects)
    (events : List (Event Snapshot (Request git.checkRefFormat)))
    (run : Run (Serve h git pathMatch rules ancestor) start events s)
    (spares : ∀ e ∈ events, Spares name e.label) :
    ∀ e ∈ events, Forward h ancestor name e.pre e.post := by
  intro e member
  by_cases named : Utf8.Valid name
  · obtain ⟨⟨value, carries⟩, served⟩ :=
      carries_throughout run (carries_of_holds holds addressed name) named spares e member
    obtain ⟨later, carries', moved⟩ := served.carries carries named (spares e member)
    obtain ⟨before, read, found⟩ := carries.list
    obtain ⟨after, read', found'⟩ := carries'.list
    refine ⟨before, after, read, read', ?_⟩
    intro oid present
    obtain rfl : value = some oid := found.symm.trans present
    rw [found']
    rcases moved with rfl | ⟨updates, called, rfl⟩
    · exact ⟨oid, rfl, .inl rfl⟩
    · exact called.forward listed applies keeps moves carries
  · -- a name that is not UTF-8 is in no root
    have anyway : ∀ e ∈ events, Spares [] e.label := fun e _ u _ _ same => Utf8.coerce_eq_nil.mp same
    obtain ⟨⟨value, carries⟩, served⟩ :=
      carries_throughout run (carries_of_holds holds addressed []) rfl anyway e member
    obtain ⟨later, carries', -⟩ := served.carries carries rfl (anyway e member)
    obtain ⟨before, read, -⟩ := carries.list
    obtain ⟨after, read', -⟩ := carries'.list
    refine ⟨before, after, read, read', ?_⟩
    intro oid present
    exact absurd (carries.names read name (Finmap.mem_of_lookup_eq_some present)) named

end Runs

def branchRule : ProtectedRef :=
  ⟨[0x72, 0x65, 0x66, 0x73, 0x2F, 0x68, 0x65, 0x61, 0x64, 0x73, 0x2F, 0x2A], true, true⟩

def child (old new : OID) : Prop := old = objectOne ∧ new = objectTwo

instance (old new : OID) : Decidable (child old new) := inferInstanceAs (Decidable (_ ∧ _))

def childGuard : Guard [branchRule] child where
  list := fun _ => .ok [branchRule]
  listed := fun _ _ same => (Except.ok.inj same).symm
  isFastForward := fun old new => .ok (decide (child old new))
  decides := by
    intro old new verdict same
    cases same
    exact decide_eq_true_iff
  changedPaths := fun _ => .ok []
  checkPaths := fun _ _ => .ok ()

def guardedEngine : Engine where
  indexPackStrict := some (.ok ())
  revListNotAll := fun _ => .ok []
  policy := some (childGuard.policy fun _ _ => .ok true)
  runPreReceive := none
  applyRefUpdateInBare := fun _ => .ok ()

def single (u : UpdateCommand)
    (wellFormed : isHexOID u.oldOID = true ∧ isHexOID u.newOID = true ∧
      ¬(u.oldOID = nullOID ∧ u.newOID = nullOID)) : Request twoObjects.checkRefFormat where
  updates := [u]
  isAtomic := false
  distinct := List.nodup_singleton _
  wellFormed := by
    intro other member
    cases List.mem_singleton.mp member
    exact ⟨rfl, wellFormed⟩

def forward : UpdateCommand := ⟨headRef 0x6D, objectOne, objectTwo⟩

def forwardPush : Request twoObjects.checkRefFormat := single forward (by decide)

theorem forwardPush_called : Calls spelledHashing twoObjects (fun _ _ => .ok true) [branchRule] child
    oneBranch forwardPush (updatesMap [forward]) :=
  ⟨childGuard, guardedEngine, [(forward, .pending)], rfl, rfl⟩

theorem forwardPush_moves_forward :
    ∃ s', Serve spelledHashing twoObjects (fun _ _ => .ok true) [branchRule] child oneBranch forwardPush
        s' ∧ Forward spelledHashing child (headRef 0x6D) oneBranch s' := by
  have served := Serve.committed forwardPush_called ⟨1, 1, oneBranch.body⟩ rfl bothTips onePack
    ⟨none, ""⟩ rfl
  have holds : Holds spelledHashing oneBranch.objects oneBranch.body oneBranch.body.refs :=
    ⟨rfl, fun _ => rfl, fun sharded => absurd rfl sharded, oneBranch_names⟩
  have empty : Addressed spelledHashing oneBranch.objects := fun _ _ held => by cases held
  refine ⟨_, served, protected_moves_forward spelledHashing twoObjects (fun _ _ => .ok true)
    [branchRule] child (headRef 0x6D) branchRule (mem_singleton_self _) rfl rfl rfl oneBranch _
    oneBranch.body.refs holds empty _ (Run.nil.next served) ?_ ⟨oneBranch, forwardPush, _⟩
    (mem_singleton_self _)⟩
  intro e member u listed creates same
  cases List.mem_singleton.mp member
  cases List.mem_singleton.mp listed
  rfl

def replacementBranch : RefName :=
  [0x72, 0x65, 0x66, 0x73, 0x2F, 0x68, 0x65, 0x61, 0x64, 0x73, 0x2F, 0xEF, 0xBF, 0xBD]

def replacementRoot : Snapshot :=
  ⟨fun _ => none, sourceBody (Dict.insertAll [(replacementBranch, objectTwo)] ∅)
    replacementBranch onePack⟩

def create : UpdateCommand := ⟨headRef 0xFF, nullOID, objectOne⟩

def createPush : Request twoObjects.checkRefFormat := single create (by decide)

theorem createPush_called : Calls spelledHashing twoObjects (fun _ _ => .ok true) [branchRule] child
    replacementRoot createPush (updatesMap [create]) :=
  ⟨childGuard, guardedEngine, [(create, .pending)], rfl, rfl⟩

set_option maxRecDepth 8000 in
/-- A creation passes every rule. JSON stores the new branch under the name of the protected one,
which the next root has at the parent of its tip. -/
theorem created_branch_overwrites_protected :
    ∃ s' before after, Serve spelledHashing twoObjects (fun _ _ => .ok true) [branchRule] child
        replacementRoot createPush s' ∧
      RefStore.list spelledHashing replacementRoot.objects replacementRoot.body = .ok before ∧
      RefStore.list spelledHashing s'.objects s'.body = .ok after ∧
      before.lookup replacementBranch = some objectTwo ∧ after.lookup replacementBranch = some objectOne ∧
      objectOne ≠ objectTwo ∧ ¬child objectTwo objectOne := by
  refine ⟨_, _, _, .committed createPush_called ⟨1, 1, replacementRoot.body⟩ rfl bothTips onePack
    ⟨none, ""⟩ rfl, rfl, rfl, ?_, ?_, ?_, ?_⟩
  all_goals decide

end BucketVcs.ReceivePack
