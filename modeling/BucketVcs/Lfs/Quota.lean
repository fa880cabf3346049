import BucketVcs.Lfs.Gc
import BucketVcs.Lib.Run
import BucketVcs.Lib.Weights

/-! The LFS quota of a tenant: a counter of bytes, a ledger of credited objects, and the
objects that are stored. -/

namespace BucketVcs.Lfs.Quota

open Transition Weights Option Finmap

abbrev Tenant := String

abbrev Repo := String

/-- A stored LFS object: `tenants/<t>/repos/<r>/lfs/objects/<oid>`. -/
abbrev ObjectKey := Tenant × Repo × OID

structure Row where
  limitBytes : Int
  usedBytes : Int
  deriving DecidableEq

/-- The tables `quotas` and `quota_credits`. -/
structure Db where
  quotas : Finmap fun _ : Tenant => Row
  credits : Finmap fun _ : Tenant × OID => Int

inductive Error where
  | negativeBytes (bytes : Int)

def Db.updateUsed (db : Db) (tenant : Tenant) (change : Int → Int) : Db :=
  match db.quotas.lookup tenant with
  | none => db
  | some row =>
    { db with quotas := db.quotas.insert tenant { row with usedBytes := change row.usedBytes } }

def add (db : Db) (tenant : Tenant) (oid : OID) (bytes : Int) : Except Error Db :=
  if bytes < 0 then .error (.negativeBytes bytes)
  else if bytes = 0 then .ok db
  -- a tenant without a quota row is not counted
  else if tenant ∉ db.quotas then .ok db
  else if (tenant, oid) ∈ db.credits then .ok db
  else
    let credited := { db with credits := db.credits.insert (tenant, oid) bytes }
    .ok (credited.updateUsed tenant fun used => used + bytes)

def subtract (db : Db) (tenant : Tenant) (oid : OID) (bytes : Int) : Except Error Db :=
  if bytes < 0 then .error (.negativeBytes bytes)
  else if bytes = 0 then .ok db
  else if (tenant, oid) ∉ db.credits then .ok db
  else
    let uncredited := { db with credits := db.credits.erase (tenant, oid) }
    .ok (uncredited.updateUsed tenant fun used => max (used - bytes) 0)

abbrev Objects := Sizes ObjectKey

def sumLFSPrefix (objects : Objects) (tenant : Tenant) (repo : Repo) : Nat :=
  total (fun key => key.1 = tenant ∧ key.2.1 = repo) objects

def tenantRepos (objects : Objects) (tenant : Tenant) : Finset Repo :=
  {key ∈ objects.keys | key.1 = tenant}.image fun key => key.2.1

structure Report where
  beforeBytes : Int
  afterBytes : Int
  driftBytes : Int

def reconcile (db : Db) (objects : Objects) (tenant : Tenant) (dryRun : Bool) : Report × Db :=
  match db.quotas.lookup tenant with
  | none => (⟨0, 0, 0⟩, db)
  | some row =>
    let sum := ∑ repo ∈ tenantRepos objects tenant, sumLFSPrefix objects tenant repo
    (⟨row.usedBytes, sum, sum - row.usedBytes⟩,
      if dryRun then db else db.updateUsed tenant fun _ => sum)

inductive VerifyError where
  | notFound
  | sizeMismatch (stored : Nat) (claimed : Int)

def verify (objects : Objects) (key : ObjectKey) (claimedSize : Int) : Except VerifyError Unit :=
  match objects.lookup key with
  | none => .error .notFound
  | some size => if (size : Int) = claimedSize then .ok () else .error (.sizeMismatch size claimedSize)

structure World where
  db : Db
  objects : Objects

/-- An upload. Through the gateway an object that is there is kept; a signed URL replaces it. -/
def World.upload (w : World) (key : ObjectKey) (size : Nat) (signed : Bool) : World :=
  if signed = false ∧ key ∈ w.objects then w
  else { w with objects := w.objects.insert key size }

/-- A failed `Add` is logged and dropped. -/
def World.serveVerify (w : World) (key : ObjectKey) (claimedSize : Int) : World :=
  match verify w.objects key claimedSize with
  | .error _ => w
  | .ok () =>
    match add w.db key.1 key.2.2 claimedSize with
    | .error _ => w
    | .ok db => { w with db := db }

/-- `hasQuota` says that the sweep was given a `Quota` service. -/
def subtractQuota (db : Db) (hasQuota : Bool) (tenant : Tenant) (oid : OID) (bytes : Int) : Db :=
  if hasQuota then
    match subtract db tenant oid bytes with
    | .error _ => db
    | .ok db => db
  else db

/-- What `RunSweep` does with one candidate, whether the object is there or already gone. -/
def World.sweep (w : World) (hasQuota : Bool) (key : ObjectKey) (sizeBytes : Nat) : World :=
  ⟨subtractQuota w.db hasQuota key.1 key.2.2 sizeBytes, w.objects.erase key⟩

def World.reconcile (w : World) (tenant : Tenant) (dryRun : Bool) : World :=
  { w with db := (Quota.reconcile w.db w.objects tenant dryRun).2 }

def storedBytes (objects : Objects) (tenant : Tenant) : Nat :=
  total (fun key => key.1 = tenant) objects

inductive Label where
  | upload (key : ObjectKey) (size : Nat) (signed : Bool) (claimedSize : Int)
  | sweep (hasQuota : Bool) (key : ObjectKey) (sizeBytes : Nat)
  | reconcile (tenant : Tenant) (dryRun : Bool)

/-- An upload with its successful verify, one deletion of a sweep, or a reconcile. No tenant
stores more bytes than an `int64` can count. -/
inductive Step : World → Label → World → Prop where
  | upload {w : World} {key : ObjectKey} {size : Nat} {signed : Bool} {claimedSize : Int}
      (verified : verify (w.upload key size signed).objects key claimedSize = .ok ())
      (fits : storedBytes (w.upload key size signed).objects key.1 < 2 ^ 63) :
      Step w (.upload key size signed claimedSize)
        ((w.upload key size signed).serveVerify key claimedSize)
  | sweep {w : World} (hasQuota : Bool) (key : ObjectKey) (sizeBytes : Nat) :
      Step w (.sweep hasQuota key sizeBytes) (w.sweep hasQuota key sizeBytes)
  | reconcile {w : World} (tenant : Tenant) (dryRun : Bool) :
      Step w (.reconcile tenant dryRun) (w.reconcile tenant dryRun)

/-- The tenant has a quota and its counter is the size of what it has stored. -/
def Counted (tenant : Tenant) (w : World) : Prop :=
  ∃ row, w.db.quotas.lookup tenant = some row ∧ row.usedBytes = storedBytes w.objects tenant

theorem sum_repos (objects : Objects) (tenant : Tenant) :
    ∑ repo ∈ tenantRepos objects tenant, sumLFSPrefix objects tenant repo =
      storedBytes objects tenant := by
  apply sum_groups
  intro key member own
  exact Finset.mem_image.mpr ⟨key, Finset.mem_filter.mpr ⟨mem_keys.mpr member, own⟩, rfl⟩

variable {w : World}

/-- The step changes the counter by as much as the store: an upload replaces nothing if its
oid is not credited yet, and keeps the size if it is; a sweep has a quota service and deletes
what is credited, with the size the mark had seen. -/
def InStep (tenant : Tenant) (e : Event World Label) : Prop :=
  match e.label with
  | .upload key _ _ _ => key.1 = tenant →
      weight e.pre.objects key =
        if (tenant, key.2.2) ∈ e.pre.db.credits then weight e.post.objects key else 0
  | .sweep hasQuota key sizeBytes => key.1 = tenant →
      weight e.pre.objects key =
        if hasQuota = true ∧ (tenant, key.2.2) ∈ e.pre.db.credits then
          min sizeBytes (storedBytes e.pre.objects tenant)
        else 0
  | .reconcile _ _ => True

section Steps

variable {db : Db} {tenant other : Tenant} {oid : OID} {w : World} {key : ObjectKey} {row : Row}

theorem lookup_updateUsed (quota : db.quotas.lookup tenant = some row) (change : Int → Int) :
    (db.updateUsed tenant change).quotas.lookup tenant =
      some { row with usedBytes := change row.usedBytes } := by
  simp only [Db.updateUsed, quota]
  exact lookup_insert _

theorem lookup_updateUsed_of_ne (different : other ≠ tenant) (change : Int → Int) :
    (db.updateUsed tenant change).quotas.lookup other = db.quotas.lookup other := by
  unfold Db.updateUsed
  split
  · rfl
  · exact lookup_insert_of_ne _ different

theorem add_ok (quota : db.quotas.lookup tenant = some row) (oid : OID) (bytes : Nat) :
    ∃ after, add db tenant oid bytes = .ok after ∧ after.quotas.lookup tenant =
      some { row with
        usedBytes := row.usedBytes + if (tenant, oid) ∈ db.credits then 0 else (bytes : Int) } := by
  have known : tenant ∈ db.quotas := mem_of_lookup_eq_some quota
  have positive : ¬ (bytes : Int) < 0 := by omega
  by_cases zero : (bytes : Int) = 0
  · refine ⟨db, by simp [add, zero], ?_⟩
    simp [quota, zero]
  · by_cases credited : (tenant, oid) ∈ db.credits
    · refine ⟨db, by simp [add, credited], ?_⟩
      simp [quota, credited]
    · let after := { db with credits := db.credits.insert (tenant, oid) (bytes : Int) }
      refine ⟨after.updateUsed tenant fun used => used + bytes, ?_, ?_⟩
      · simp only [add, positive, zero, known, credited, if_false, not_true, after]
      have found : after.quotas.lookup tenant = some row := quota
      rw [if_neg credited]
      exact lookup_updateUsed found _

theorem subtract_ok (quota : db.quotas.lookup tenant = some row) (oid : OID) (bytes : Nat) :
    ∃ after, subtract db tenant oid bytes = .ok after ∧
      ((tenant, oid) ∉ db.credits → after.quotas.lookup tenant = some row) ∧
      ((tenant, oid) ∈ db.credits → 0 ≤ row.usedBytes → after.quotas.lookup tenant =
        some { row with usedBytes := max (row.usedBytes - bytes) 0 }) := by
  have positive : ¬ (bytes : Int) < 0 := by omega
  by_cases zero : (bytes : Int) = 0
  · refine ⟨db, by simp [subtract, zero], fun _ => quota, ?_⟩
    intro credited used
    simp [quota, zero, used]
  · by_cases credited : (tenant, oid) ∈ db.credits
    · let after := { db with credits := db.credits.erase (tenant, oid) }
      have found : after.quotas.lookup tenant = some row := quota
      refine ⟨after.updateUsed tenant fun used => max (used - bytes) 0, ?_, ?_, ?_⟩
      · simp only [subtract, positive, zero, credited, if_false, not_true, after]
      · exact fun uncredited => absurd credited uncredited
      · exact fun _ _ => lookup_updateUsed found _
    · refine ⟨db, by simp [subtract, credited], fun _ => quota, ?_⟩
      exact fun member => absurd member credited

variable {bytes : Int} {after : Db} {claimedSize : Int} {size : Nat} {signed : Bool}
  {sizeBytes : Nat} {w' : World}

theorem quotas_add_of_ne (different : other ≠ tenant) (added : add db tenant oid bytes = .ok after) :
    after.quotas.lookup other = db.quotas.lookup other := by
  unfold add at added
  split_ifs at added <;> cases added
  all_goals first | rfl | exact lookup_updateUsed_of_ne different _

theorem quotas_subtract_of_ne (different : other ≠ tenant)
    (subtracted : subtract db tenant oid bytes = .ok after) :
    after.quotas.lookup other = db.quotas.lookup other := by
  unfold subtract at subtracted
  split_ifs at subtracted <;> cases subtracted
  all_goals first | rfl | exact lookup_updateUsed_of_ne different _

theorem quotas_subtractQuota_of_ne (different : other ≠ tenant) (hasQuota : Bool) :
    (subtractQuota db hasQuota tenant oid bytes).quotas.lookup other = db.quotas.lookup other := by
  unfold subtractQuota
  split
  · split
    · rfl
    · next subtracted => exact quotas_subtract_of_ne different subtracted
  · rfl

theorem verify_ok {objects : Objects} (verified : verify objects key claimedSize = .ok ()) :
    claimedSize = weight objects key := by
  unfold verify at verified
  unfold weight
  cases found : objects.lookup key with
  | none => simp [found] at verified
  | some size =>
    simp only [found] at verified
    split at verified
    · next same => exact same.symm
    · cases verified

theorem weight_upload_of_ne {off : ObjectKey} (different : off ≠ key) :
    weight (w.upload key size signed).objects off = weight w.objects off := by
  unfold World.upload
  split
  · rfl
  · exact weight_insert_of_ne different size

theorem db_upload (size : Nat) (signed : Bool) : (w.upload key size signed).db = w.db := by
  unfold World.upload
  split <;> rfl

theorem objects_serveVerify (claimedSize : Int) :
    (w.serveVerify key claimedSize).objects = w.objects := by
  unfold World.serveVerify
  split
  · rfl
  · split <;> rfl

/-- An upload keeps the counter right exactly if it is in step. -/
theorem counted_upload (counted : Counted key.1 w)
    (verified : verify (w.upload key size signed).objects key claimedSize = .ok ()) :
    Counted key.1 ((w.upload key size signed).serveVerify key claimedSize) ↔
      weight w.objects key = if (key.1, key.2.2) ∈ w.db.credits
        then weight (w.upload key size signed).objects key else 0 := by
  obtain ⟨row, quota, used⟩ := counted
  obtain ⟨after, added, counter⟩ := add_ok quota key.2.2
    (weight (w.upload key size signed).objects key)
  have moved : storedBytes (w.upload key size signed).objects key.1 + weight w.objects key =
      storedBytes w.objects key.1 + weight (w.upload key size signed).objects key :=
    total_of_eq_off _ rfl fun off different => weight_upload_of_ne different
  have same : (w.upload key size signed).serveVerify key claimedSize =
      ⟨after, (w.upload key size signed).objects⟩ := by
    simp only [World.serveVerify, verified, db_upload]
    rw [verify_ok verified, added]
  simp only [same, Counted, counter, some.injEq, exists_eq_left']
  split <;> omega

theorem counted_sweep (counted : Counted key.1 w) (hasQuota : Bool) :
    Counted key.1 (w.sweep hasQuota key sizeBytes) ↔
      weight w.objects key = if hasQuota = true ∧ (key.1, key.2.2) ∈ w.db.credits
        then min sizeBytes (storedBytes w.objects key.1) else 0 := by
  obtain ⟨row, quota, used⟩ := counted
  obtain ⟨after, subtracted, kept, lowered⟩ := subtract_ok quota key.2.2 sizeBytes
  have moved : storedBytes (w.objects.erase key) key.1 + weight w.objects key =
      storedBytes w.objects key.1 + weight (w.objects.erase key) key :=
    total_of_eq_off _ rfl fun off different => weight_erase_of_ne different
  rw [weight_erase] at moved
  cases hasQuota with
  | false =>
    simp only [World.sweep, subtractQuota, Counted, quota, some.injEq, exists_eq_left',
      Bool.false_eq_true, false_and, if_false]
    omega
  | true =>
    have same : w.sweep true key sizeBytes = ⟨after, w.objects.erase key⟩ := by
      simp only [World.sweep, subtractQuota, subtracted, if_true]
    simp only [true_and]
    by_cases credited : (key.1, key.2.2) ∈ w.db.credits
    · have counter := lowered credited (by omega)
      simp only [same, Counted, counter, some.injEq, exists_eq_left', if_pos credited]
      omega
    · simp only [same, Counted, kept credited, some.injEq, exists_eq_left', if_neg credited]
      omega

theorem db_reconcile : (w.reconcile tenant false).db =
    w.db.updateUsed tenant fun _ => (storedBytes w.objects tenant : Int) := by
  unfold World.reconcile reconcile
  cases found : w.db.quotas.lookup tenant with
  | none => simp [Db.updateUsed, found]
  | some row => simp [sum_repos]

theorem counted_reconcile (quota : w.db.quotas.lookup tenant = some row) :
    Counted tenant (w.reconcile tenant false) := by
  refine ⟨{ row with usedBytes := storedBytes w.objects tenant }, ?_, rfl⟩
  rw [db_reconcile]
  exact lookup_updateUsed quota _

section

variable (counted : Counted tenant w)

include counted

theorem Counted.frame (row : w'.db.quotas.lookup tenant = w.db.quotas.lookup tenant)
    (off : ∀ key : ObjectKey, key.1 = tenant → weight w'.objects key = weight w.objects key) :
    Counted tenant w' := by
  obtain ⟨quota, found, used⟩ := counted
  refine ⟨quota, row.trans found, ?_⟩
  rw [used, storedBytes, storedBytes, total_congr _ off]

theorem Counted.upload_of_ne (different : tenant ≠ key.1) :
    Counted tenant ((w.upload key size signed).serveVerify key claimedSize) := by
  apply counted.frame
  · unfold World.serveVerify
    split
    · rw [db_upload]
    · split
      · rw [db_upload]
      · next added =>
          rw [db_upload] at added
          exact quotas_add_of_ne different added
  · intro off own
    rw [objects_serveVerify]
    apply weight_upload_of_ne
    rintro rfl
    exact different own.symm

theorem Counted.sweep_of_ne (different : tenant ≠ key.1) (hasQuota : Bool) :
    Counted tenant (w.sweep hasQuota key sizeBytes) := by
  apply counted.frame
  · exact quotas_subtractQuota_of_ne different hasQuota
  · intro off own
    apply weight_erase_of_ne
    rintro rfl
    exact different own.symm

theorem Counted.reconciled (other : Tenant) (dryRun : Bool) :
    Counted tenant (w.reconcile other dryRun) := by
  cases dryRun with
  | true =>
    apply counted.frame
    · unfold World.reconcile reconcile
      split <;> rfl
    · exact fun _ _ => rfl
  | false =>
    by_cases same : tenant = other
    · subst same
      obtain ⟨row, quota, -⟩ := counted
      exact counted_reconcile quota
    · apply counted.frame
      · rw [db_reconcile]
        exact lookup_updateUsed_of_ne same _
      · exact fun _ _ => rfl

/-- From a state in which the counter is right, a step leads to one exactly if it is in step. -/
theorem counted_step {l : Label} (step : Step w l w') :
    Counted tenant w' ↔ InStep tenant ⟨w, l, w'⟩ := by
  cases step with
  | @upload key size signed claimedSize verified =>
    simp only [InStep, objects_serveVerify]
    by_cases own : key.1 = tenant
    · subst own
      rw [counted_upload counted verified]
      exact ⟨fun inStep _ => inStep, fun inStep => inStep rfl⟩
    · exact iff_of_true (counted.upload_of_ne (.symm own)) fun same => absurd same own
  | sweep hasQuota key sizeBytes =>
    by_cases own : key.1 = tenant
    · subst own
      rw [counted_sweep counted]
      exact ⟨fun inStep _ => inStep, fun inStep => inStep rfl⟩
    · exact iff_of_true (counted.sweep_of_ne (.symm own) hasQuota) fun same => absurd same own
  | reconcile other dryRun => exact iff_of_true (counted.reconciled other dryRun) trivial

end

end Steps

/-- After a reconcile the counter stays right through a run exactly if every upload and every
deletion is in step with the ledger. -/
theorem quota_counts_stored_bytes_iff (tenant : Tenant) {w s : World} {row : Row}
    {events : List (Event World Label)} (quota : w.db.quotas.lookup tenant = some row)
    (run : Run Step (w.reconcile tenant false) events s) :
    (∀ e ∈ events, Counted tenant e.post) ↔ ∀ e ∈ events, InStep tenant e := by
  apply run.kept_iff (counted_reconcile quota)
  intro before l after counted step
  exact counted_step counted step

/-! ### A tenant with one object in two repositories -/

theorem verify_upload {key : ObjectKey} (absent : key ∉ w.objects) (size : Nat) (signed : Bool) :
    verify (w.upload key size signed).objects key size = .ok () := by
  have stored : (w.upload key size signed).objects = w.objects.insert key size := by
    simp [World.upload, absent]
  rw [stored, verify, lookup_insert]
  exact if_pos rfl

def unusedQuota : World := ⟨⟨Finmap.singleton "tenant" ⟨100, 0⟩, ∅⟩, ∅⟩

def sharedOid : OID := [1]

def oneCopy : World :=
  ((unusedQuota.reconcile "tenant" false).upload ("tenant", "a", sharedOid) 5 false).serveVerify
    ("tenant", "a", sharedOid) 5

def twoCopies : World :=
  (oneCopy.upload ("tenant", "b", sharedOid) 5 false).serveVerify ("tenant", "b", sharedOid) 5

theorem run_oneCopy : Run Step (unusedQuota.reconcile "tenant" false)
    [⟨unusedQuota.reconcile "tenant" false, .upload ("tenant", "a", sharedOid) 5 false 5, oneCopy⟩]
    oneCopy :=
  Run.nil.next (.upload (verify_upload (by decide) 5 false) (by decide))

theorem quota_counts_stored_bytes_sample : Counted "tenant" oneCopy := by
  have counts := quota_counts_stored_bytes_iff "tenant" (lookup_singleton_eq ..) run_oneCopy
  apply counts.mpr _ _ List.mem_cons_self
  intro e member
  cases List.mem_singleton.mp member
  intro own
  decide

/-- Two copies are stored and one is counted. -/
theorem second_copy_not_counted : ∃ events,
    Run Step (unusedQuota.reconcile "tenant" false) events twoCopies ∧
      (reconcile twoCopies.db twoCopies.objects "tenant" true).1 = ⟨5, 10, 5⟩ ∧
        ¬ Counted "tenant" twoCopies := by
  refine ⟨_, run_oneCopy.next (.upload (verify_upload (by decide) 5 false) (by decide)), ?_, ?_⟩
  · rfl
  · rintro ⟨row, quota, used⟩
    have counter : twoCopies.db.quotas.lookup "tenant" = some ⟨100, 5⟩ := by decide
    have stored : storedBytes twoCopies.objects "tenant" = 10 := by decide
    rw [counter] at quota
    cases quota
    rw [stored] at used
    cases used

end BucketVcs.Lfs.Quota
