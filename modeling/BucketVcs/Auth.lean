import Mathlib.Data.Rat.Floor
import BucketVcs.Lib.Leaky

/-! Actors, permissions and the interface of the credential store. -/

namespace BucketVcs.Auth

abbrev UserID := String
abbrev Username := String
abbrev TokenID := String
abbrev Tenant := String
abbrev RepoName := String

structure Actor where
  userID : UserID
  name : Username
  isAdmin : Bool
  deriving DecidableEq, Repr

inductive Action where
  | read
  | write
  deriving DecidableEq, Repr

inductive Perm where
  | none
  | read
  | write
  | admin
  deriving DecidableEq, Repr

def Perm.level : Perm → ℕ
  | .none => 0
  | .read => 1
  | .write => 2
  | .admin => 3

structure RepoFlags where
  publicRead : Bool
  deriving DecidableEq, Repr

structure Scope where
  tenant : Tenant
  repo : RepoName
  perm : Perm
  deriving DecidableEq, Repr

structure BasicPassword where
  username : Username
  password : String
  deriving DecidableEq, Repr

inductive Error where
  | invalidCredential
  | tokenExpired
  | tokenRevoked
  | userDisabled
  | noSuchUser
  | noSuchKey
  | noSuchRepo
  /-- The database, the disk or the network. -/
  | internal
  deriving DecidableEq, Repr

def isCredentialError : Error → Bool
  | .invalidCredential | .tokenExpired | .tokenRevoked | .userDisabled | .noSuchUser | .noSuchKey =>
    true
  | .noSuchRepo | .internal => false

/-- `auth.Decide`: the answer and the reason of a refusal. -/
protected def decide (actor : Option Actor) (perm : Perm) (action : Action) (flags : RepoFlags) :
    Bool × String :=
  -- an anonymous caller cannot carry a permission
  let perm := if actor.isNone then .none else perm
  if actor.any Actor.isAdmin then (true, "")
  else
    match action with
    | .read =>
      if flags.publicRead then (true, "")
      else if Perm.read.level ≤ perm.level then (true, "")
      else if actor.isNone then (false, "anonymous read on private repo")
      else (false, "user has no read permission")
    | .write =>
      if Perm.write.level ≤ perm.level then (true, "")
      else if actor.isNone then (false, "anonymous write")
      else (false, "user has no write permission")

/-- What `VerifyCredential` returns for a good credential. -/
structure Verified where
  actor : Actor
  tokenID : TokenID
  scope : Option Scope
  deriving DecidableEq, Repr

/-- `auth.Store`, as far as a request uses it. Only some stores resolve aliases. -/
structure Store where
  verifyCredential : BasicPassword → Except Error Verified
  getRepoFlags : Tenant → RepoName → Except Error RepoFlags
  lookupRepoPerm : Option Actor → Tenant → RepoName → Except Error Perm
  resolveAlias : Option (Tenant → RepoName → Except Error (Option RepoName))

/-! The limiter of failed credentials: one bucket for each source address and one for each
account name. -/

abbrev IP := String

/-- Time in seconds. -/
abbrev Moment := ℚ

inductive LimitedBucket where
  | none
  | ip
  | user
  deriving DecidableEq, Repr

structure Config where
  burst : ℤ
  userBurst : ℤ
  refillPerMinute : ℚ
  sweepInterval : ℚ

def defaultConfig : Config :=
  { burst := 10, userBurst := 100, refillPerMinute := 1, sweepInterval := 300 }

structure Bucket where
  failures : ℚ
  lastDecay : Moment
  deriving DecidableEq

structure Limiter where
  config : Config
  perIP : IP → Option Bucket
  perUser : Username → Option Bucket

/-- `NewLimiter`: a burst below one and the negative settings are replaced. -/
def newLimiter (config : Config) : Limiter where
  config :=
    { config with
      burst := if config.burst < 1 then defaultConfig.burst else config.burst
      refillPerMinute := if config.refillPerMinute < 0 then 0 else config.refillPerMinute
      userBurst := if config.userBurst < 0 then 0 else config.userBurst }
  perIP := fun _ => none
  perUser := fun _ => none

def Config.decay (config : Config) (bucket : Bucket) (now : Moment) : Bucket :=
  if config.refillPerMinute ≤ 0 then { bucket with lastDecay := now }
  else
    let elapsed := now - bucket.lastDecay
    if elapsed ≤ 0 then bucket
    else
      let failures := bucket.failures - config.refillPerMinute / 60 * elapsed
      { failures := if failures < 0 then 0 else failures, lastDecay := now }

def Config.retryAfter (config : Config) (bucket : Bucket) (burst : ℤ) : ℤ :=
  if config.refillPerMinute ≤ 0 then 600
  else
    let excess := bucket.failures - (burst - 1 : ℤ)
    if excess ≤ 0 then 0 else ⌈excess / (config.refillPerMinute / 60)⌉

structure Verdict where
  allowed : Bool
  retryAfter : ℤ
  which : LimitedBucket
  deriving DecidableEq, Repr

namespace Limiter

def pass : Verdict := ⟨true, 0, .none⟩

def setIP (limiter : Limiter) (ip : IP) (bucket : Bucket) : Limiter :=
  { limiter with perIP := Function.update limiter.perIP ip (some bucket) }

def setUser (limiter : Limiter) (user : Username) (bucket : Bucket) : Limiter :=
  { limiter with perUser := Function.update limiter.perUser user (some bucket) }

def gatesUser (limiter : Limiter) (user : Username) : Bool :=
  user ≠ "" && 0 < limiter.config.userBurst

def checkUser (limiter : Limiter) (now : Moment) (user : Username) : Verdict × Limiter :=
  if limiter.gatesUser user then
    match limiter.perUser user with
    | some found =>
      let bucket := limiter.config.decay found now
      let limiter := limiter.setUser user bucket
      if limiter.config.userBurst ≤ bucket.failures then
        (⟨false, limiter.config.retryAfter bucket limiter.config.userBurst, .user⟩, limiter)
      else (pass, limiter)
    | none => (pass, limiter)
  else (pass, limiter)

/-- The check reads a bucket and never makes one. -/
def checkDetailed (limiter : Limiter) (now : Moment) (ip : IP) (user : Username) :
    Verdict × Limiter :=
  match limiter.perIP ip with
  | some found =>
    let bucket := limiter.config.decay found now
    let limiter := limiter.setIP ip bucket
    if limiter.config.burst ≤ bucket.failures then
      (⟨false, limiter.config.retryAfter bucket limiter.config.burst, .ip⟩, limiter)
    else limiter.checkUser now user
  | none => limiter.checkUser now user

/-- One more failure, up to one above the burst, in a bucket made if there is none. -/
def addFailure (config : Config) (found : Option Bucket) (now : Moment) (burst : ℤ) : Bucket :=
  let bucket := config.decay (found.getD ⟨0, now⟩) now
  let most : ℚ := (burst + 1 : ℤ)
  { bucket with failures := if most < bucket.failures + 1 then most else bucket.failures + 1 }

def markFailure (limiter : Limiter) (now : Moment) (ip : IP) (user : Username) : Limiter :=
  let config := limiter.config
  let limiter := limiter.setIP ip (addFailure config (limiter.perIP ip) now config.burst)
  if limiter.gatesUser user then
    limiter.setUser user (addFailure config (limiter.perUser user) now config.userBurst)
  else limiter

def markSuccess (limiter : Limiter) (now : Moment) (ip : IP) (user : Username) : Limiter :=
  let limiter :=
    match limiter.perIP ip with
    | some _ => limiter.setIP ip ⟨0, now⟩
    | none => limiter
  if user ≠ "" then
    match limiter.perUser user with
    | some _ => limiter.setUser user ⟨0, now⟩
    | none => limiter
  else limiter

/-- What `sweepOnce` makes of one bucket: empty ones go, and with a refill idle ones. -/
def swept (config : Config) (now : Moment) (found : Bucket) : Option Bucket :=
  let idle := now - found.lastDecay
  let bucket := config.decay found now
  if bucket.failures ≤ 0 ∨ (0 < config.refillPerMinute ∧ 2 * config.sweepInterval < idle) then none
  else some bucket

def sweepOnce (limiter : Limiter) (now : Moment) : Limiter :=
  { limiter with
    perIP := fun ip => (limiter.perIP ip).bind (swept limiter.config now)
    perUser := fun user => (limiter.perUser user).bind (swept limiter.config now) }

section Accounts

variable (limiter : Limiter) (now : Moment) (ip : IP) (user : Username)

section

variable (bucket : Bucket)

include bucket

@[simp] theorem setIP_perUser : (limiter.setIP ip bucket).perUser = limiter.perUser :=
  rfl

@[simp] theorem setIP_config : (limiter.setIP ip bucket).config = limiter.config :=
  rfl

@[simp] theorem setUser_config : (limiter.setUser user bucket).config = limiter.config := rfl

@[simp] theorem setUser_perIP : (limiter.setUser user bucket).perIP = limiter.perIP :=
  rfl

theorem setUser_perUser (other : Username) :
    (limiter.setUser user bucket).perUser other =
      if other = user then some bucket else limiter.perUser other := by
  simp [setUser, Function.update_apply]

theorem setIP_perIP (other : IP) :
    (limiter.setIP ip bucket).perIP other = if other = ip then some bucket else limiter.perIP other := by
  simp [setIP, Function.update_apply]

@[simp] theorem setIP_gatesUser :
    (limiter.setIP ip bucket).gatesUser user = limiter.gatesUser user := rfl

end

theorem checkUser_spec :
    (limiter.checkUser now user).2.config = limiter.config ∧
      (limiter.checkUser now user).2.perIP = limiter.perIP ∧
      ∀ other, (limiter.checkUser now user).2.perUser other =
        if other = user ∧ limiter.gatesUser user = true then
          (limiter.perUser other).map fun bucket => limiter.config.decay bucket now
        else limiter.perUser other := by
  unfold checkUser
  split
  · rename_i gates
    split
    · rename_i found present
      dsimp only
      split
      all_goals
        refine ⟨rfl, rfl, fun other => ?_⟩
        rw [setUser_perUser]
        by_cases same : other = user <;> simp [same, gates, present]
    · rename_i absent
      refine ⟨rfl, rfl, fun other => ?_⟩
      by_cases same : other = user <;> simp [same, absent]
  · rename_i open_
    exact ⟨rfl, rfl, fun other => by simp [open_]⟩

theorem checkUser_allowed_iff :
    (limiter.checkUser now user).1.allowed = true ↔
      (limiter.gatesUser user = true → ∀ bucket, limiter.perUser user = some bucket →
        (limiter.config.decay bucket now).failures < limiter.config.userBurst) := by
  unfold checkUser
  split
  · rename_i gates
    split
    · rename_i found present
      dsimp only
      split
      · rename_i full
        simp only [Bool.false_eq_true, false_iff]
        intro below
        exact absurd full (not_le.mpr (below gates found present))
      · rename_i room
        simp only [pass, true_iff]
        intro _ bucket same
        rw [present] at same
        cases same
        exact not_le.mp room
    · rename_i absent
      simp [pass, absent]
  · rename_i open_
    simp [pass, open_]

theorem checkDetailed_cases :
    ((limiter.checkDetailed now ip user).1.allowed = false ∧
        (limiter.checkDetailed now ip user).2.config = limiter.config ∧
        (limiter.checkDetailed now ip user).2.perUser = limiter.perUser) ∨
      ∃ checked : Limiter, checked.config = limiter.config ∧ checked.perUser = limiter.perUser ∧
        limiter.checkDetailed now ip user = checked.checkUser now user := by
  unfold checkDetailed
  split
  · dsimp only
    split
    · exact .inl ⟨rfl, rfl, rfl⟩
    · exact .inr ⟨limiter.setIP ip _, rfl, rfl, rfl⟩
  · exact .inr ⟨limiter, rfl, rfl, rfl⟩

theorem checkDetailed_of_fresh (fresh : limiter.perIP ip = none) :
    limiter.checkDetailed now ip user = limiter.checkUser now user := by
  simp [checkDetailed, fresh]

theorem markFailure_config : (limiter.markFailure now ip user).config = limiter.config := by
  unfold markFailure
  dsimp only
  split <;> rfl

theorem markFailure_perUser (other : Username) :
    (limiter.markFailure now ip user).perUser other =
      if other = user ∧ limiter.gatesUser user = true then
        some (addFailure limiter.config (limiter.perUser other) now limiter.config.userBurst)
      else limiter.perUser other := by
  unfold markFailure
  dsimp only
  split
  · rename_i gates
    rw [setIP_gatesUser] at gates
    rw [setUser_perUser]
    by_cases same : other = user <;> simp [same, gates]
  · rename_i open_
    rw [setIP_gatesUser] at open_
    simp [open_]

theorem markFailure_perIP (other : IP) (apart : other ≠ ip) :
    (limiter.markFailure now ip user).perIP other = limiter.perIP other := by
  unfold markFailure
  dsimp only
  split <;> simp [setIP_perIP, apart]

theorem markSuccess_config : (limiter.markSuccess now ip user).config = limiter.config := by
  unfold markSuccess
  dsimp only
  split <;> split <;> try split
  all_goals rfl

theorem markSuccess_perUser_of_ne (other : Username) (apart : other ≠ user) :
    (limiter.markSuccess now ip user).perUser other = limiter.perUser other := by
  unfold markSuccess
  dsimp only
  split <;> split <;> try split
  all_goals simp [setUser_perUser, apart]

end Accounts

end Limiter

section Levels

def Config.rate (config : Config) : ℚ :=
  if config.refillPerMinute ≤ 0 then 0 else config.refillPerMinute / 60

theorem Config.rate_nonneg (config : Config) : 0 ≤ config.rate := by
  unfold Config.rate
  split
  · exact le_rfl
  · linarith

def Bucket.level (config : Config) (bucket : Bucket) (now : Moment) : ℚ :=
  max 0 (bucket.failures - config.rate * (now - bucket.lastDecay))

theorem Bucket.level_nonneg (config : Config) (bucket : Bucket) (now : Moment) :
    0 ≤ bucket.level config now := le_max_left _ _

theorem Config.decay_eq (config : Config) (bucket : Bucket) {now : Moment}
    (order : bucket.lastDecay ≤ now) (nonneg : 0 ≤ bucket.failures) :
    config.decay bucket now = ⟨bucket.level config now, now⟩ := by
  unfold Config.decay Bucket.level Config.rate
  split
  · simp [nonneg]
  · dsimp only
    split
    · rename_i flat
      have same : bucket.lastDecay = now := by linarith
      simp [← same, nonneg]
    · split
      · rename_i below
        rw [max_eq_left (le_of_lt below)]
      · rename_i above
        rw [max_eq_right (not_lt.mp above)]

theorem Bucket.level_later (config : Config) (bucket : Bucket) {now later : Moment}
    (order : now ≤ later) :
    bucket.level config later = max 0 (bucket.level config now - config.rate * (later - now)) :=
  (Leaky.Counter.level_level ⟨bucket.failures, bucket.lastDecay⟩ config.rate_nonneg order).symm

end Levels

/-- A gateway without a limiter has none of the gates. -/
abbrev Throttle := Option Limiter

namespace Throttle

def checkDetailed (throttle : Throttle) (now : Moment) (ip : IP) (user : Username) :
    Verdict × Throttle :=
  match throttle with
  | none => (Limiter.pass, none)
  | some limiter =>
    let (verdict, limiter) := limiter.checkDetailed now ip user
    (verdict, some limiter)

def markFailure (throttle : Throttle) (now : Moment) (ip : IP) (user : Username) : Throttle :=
  throttle.map fun limiter => limiter.markFailure now ip user

def markSuccess (throttle : Throttle) (now : Moment) (ip : IP) (user : Username) : Throttle :=
  throttle.map fun limiter => limiter.markSuccess now ip user

end Throttle

end BucketVcs.Auth
