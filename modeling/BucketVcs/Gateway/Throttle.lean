import BucketVcs.Gateway.Routes

/-! Who can clear the failures that count against an account, over any history of requests,
and how many guesses against it get past the limiter. -/

namespace BucketVcs.Gateway

open Auth Auth.Database List Option

/-- What `RunAuth` makes of the credential of a request. -/
inductive Attempt where
  | limited
  | anonymous
  | failed
  | internal
  | mismatch
  | succeeded (verified : Verified)
  deriving DecidableEq, Repr

section Attempts

variable (store : Store) (limiter : Limiter) (now : Moment) (request : Request) (rr : RoutedRequest)

def presented : Attempt :=
  match request.basicAuth with
  | none => .anonymous
  | some credential =>
    match store.verifyCredential credential with
    | .error problem => if isCredentialError problem then .failed else .internal
    | .ok verified => if scopeMismatch verified.scope rr then .mismatch else .succeeded verified

def checked : Verdict × Limiter := limiter.checkDetailed now request.ip request.basicUser

def attempt : Attempt :=
  if (checked limiter now request).1.allowed then presented store request rr else .limited

def afterAttempt : Attempt → Limiter
  | .failed => (checked limiter now request).2.markFailure now request.ip request.basicUser
  | .succeeded _ => (checked limiter now request).2.markSuccess now request.ip request.basicUser
  | _ => (checked limiter now request).2

/-- The limiter after `RunAuth` depends on the attempt alone. -/
theorem runAuth_limiter :
    (runAuth store (some limiter) now request rr).2 =
      some (afterAttempt limiter now request (attempt store limiter now request rr)) := by
  have gate : (Throttle.checkDetailed (some limiter) now request.ip request.basicUser) =
      ((checked limiter now request).1, some (checked limiter now request).2) := rfl
  unfold runAuth attempt
  rw [gate]
  by_cases allowed : (checked limiter now request).1.allowed = true
  · rw [if_pos allowed, if_pos allowed]
    cases given : request.basicAuth with
    | none => simp only [runCredential, presented, given, afterAttempt]
    | some credential =>
      have named : request.basicUser = credential.username := by simp [Request.basicUser, given]
      cases outcome : store.verifyCredential credential with
      | error problem =>
        cases kind : isCredentialError problem <;>
          simp [runCredential, presented, given, outcome, kind, afterAttempt,
            Throttle.markFailure, named]
      | ok verified =>
        cases bound : scopeMismatch verified.scope rr <;>
          simp [runCredential, presented, given, outcome, bound, afterAttempt,
            Throttle.markSuccess, named]
  · rw [if_neg allowed, if_neg allowed]
    rfl

end Attempts

/-- A request, on the database of its time, or a sweep of the limiter. -/
inductive Occurrence where
  | request (db : Database) (time : Seconds) (moment : Moment) (req : Request)
      (rr : RoutedRequest)
  | sweep (moment : Moment)

namespace Occurrence

variable (codec : TokenCodec)

def moment : Occurrence → Moment
  | .request _ _ moment _ _ => moment
  | .sweep moment => moment

def isSweep : Occurrence → Bool
  | .request .. => false
  | .sweep _ => true

def withoutAddress : Occurrence → Occurrence
  | .request db time moment req rr => .request db time moment { req with ip := "" } rr
  | .sweep moment => .sweep moment

def next (limiter : Limiter) : Occurrence → Limiter
  | .request db time moment req rr =>
    ((runAuth (db.store codec time) (some limiter) moment req rr).2).getD limiter
  | .sweep moment => limiter.sweepOnce moment

def Resets (limiter : Limiter) (account : Username) : Occurrence → Prop
  | .request db time moment req rr =>
    req.basicUser = account ∧
      ∃ verified, attempt (db.store codec time) limiter moment req rr = .succeeded verified
  | .sweep _ => False

/-- The request carries a good credential, and it is one of the account. -/
def HeldBy (account : Username) : Occurrence → Prop
  | .request db time _ req rr =>
    ∃ verified user, presented (db.store codec time) req rr = .succeeded verified ∧
      db.user verified.actor.userID = some user ∧ user.name = account
  | .sweep _ => False

def HasUser (account : Username) : Occurrence → Prop
  | .request db .. => ∃ row ∈ db.users, row.name = account
  | .sweep _ => True

/-- A bound credential is not presented under the name of another user. -/
def UnderOwnName : Occurrence → Prop
  | .request db time _ req rr =>
    ∀ verified, presented (db.store codec time) req rr = .succeeded verified →
      verified.scope.isSome → (∃ row ∈ db.users, row.name = req.basicUser) →
      ∃ user, db.user verified.actor.userID = some user ∧ user.name = req.basicUser
  | .sweep _ => True

def WithoutCredential : Occurrence → Prop
  | .request db time _ req rr => presented (db.store codec time) req rr = .failed
  | .sweep _ => True

def passedGuess (account : Username) (limiter : Limiter) : Occurrence → Bool
  | .request db time moment req rr =>
    req.basicUser = account ∧
      attempt (db.store codec time) limiter moment req rr = .failed
  | .sweep _ => false

end Occurrence

def passedGuesses (codec : TokenCodec) (account : Username) : Limiter → List Occurrence → ℕ
  | _, [] => 0
  | limiter, occurrence :: rest =>
    (if occurrence.passedGuess codec account limiter then 1 else 0) +
      passedGuesses codec account (occurrence.next codec limiter) rest

section Owners

variable {codec : TokenCodec}

variable {limiter : Limiter} {request : Request} {rr : RoutedRequest} {verified : Verified}

theorem presented_of_attempt {store : Store} {now : Moment}
    (succeeded : attempt store limiter now request rr = .succeeded verified) :
    presented store request rr = .succeeded verified := by
  unfold attempt at succeeded
  split at succeeded
  · exact succeeded
  · cases succeeded

theorem owner_of_ordinary {db : Database} {time : Seconds}
    (succeeded : presented (db.store codec time) request rr = .succeeded verified)
    (ordinary : verified.scope = none) :
    ∃ user, db.user verified.actor.userID = some user ∧ user.name = request.basicUser := by
  unfold presented at succeeded
  split at succeeded
  · cases succeeded
  · rename_i credential given
    have named : request.basicUser = credential.username := by simp [Request.basicUser, given]
    split at succeeded
    · split at succeeded <;> cases succeeded
    · rename_i found good
      split at succeeded
      · cases succeeded
      · cases succeeded
        obtain ⟨row, _, user, _, _, _, owner, _, sameUser, _, scope, own⟩ := verifyBasicPassword_ok good
        rw [named]
        exact ⟨user, sameUser ▸ owner, (own (scope.symm.trans ordinary)).symm⟩

theorem heldBy_of_resets {occurrence : Occurrence} {account : Username}
    (own : occurrence.UnderOwnName codec) (known : occurrence.HasUser account)
    (resets : occurrence.Resets codec limiter account) : occurrence.HeldBy codec account := by
  cases occurrence with
  | sweep moment => exact resets
  | request db time moment req rr =>
    obtain ⟨rfl, verified, succeeded⟩ := resets
    have good := presented_of_attempt succeeded
    cases scope : verified.scope with
    | none =>
      obtain ⟨user, owner, named⟩ := owner_of_ordinary good scope
      exact ⟨verified, user, good, owner, named⟩
    | some bound =>
      obtain ⟨user, owner, named⟩ := own verified good (by rw [scope]; rfl) known
      exact ⟨verified, user, good, owner, named⟩

end Owners

section Comparison

/-- A bucket as the limiter keeps it: never negative, and stamped in the past. -/
structure Stamped (now : Moment) (bucket : Bucket) : Prop where
  past : bucket.lastDecay ≤ now
  nonneg : 0 ≤ bucket.failures

/-- One bucket of an account holds no more than another, and was touched no later. -/
structure Lighter (config : Config) (now : Moment) (mine theirs : Option Bucket) : Prop where
  stamped : ∀ bucket, theirs = some bucket → Stamped now bucket
  below : ∀ bucket, mine = some bucket → Stamped now bucket ∧
    ∃ other, theirs = some other ∧ bucket.lastDecay ≤ other.lastDecay ∧
      bucket.level config now ≤ other.level config now

variable {config : Config} {now later : Moment} {mine theirs : Option Bucket}

theorem lighter_none (config : Config) (now : Moment) : Lighter config now none none :=
  ⟨fun _ impossible => (nomatch impossible), fun _ impossible => (nomatch impossible)⟩

variable {bucket : Bucket}

theorem Stamped.mono (stamped : Stamped now bucket) (order : now ≤ later) :
    Stamped later bucket := ⟨stamped.past.trans order, stamped.nonneg⟩

theorem Bucket.level_mono {other : Bucket} (order : now ≤ later)
    (below : bucket.level config now ≤ other.level config now) :
    bucket.level config later ≤ other.level config later := by
  rw [Bucket.level_later config bucket order, Bucket.level_later config other order]
  exact max_le_max le_rfl (sub_le_sub_right below _)

theorem Lighter.mono (lighter : Lighter config now mine theirs) (order : now ≤ later) :
    Lighter config later mine theirs := by
  refine ⟨fun bucket found => (lighter.stamped bucket found).mono order, ?_⟩
  intro bucket found
  obtain ⟨stamped, other, present, earlier, below⟩ := lighter.below bucket found
  exact ⟨stamped.mono order, other, present, earlier, Bucket.level_mono order below⟩

@[simp] theorem level_self (failures : ℚ) (nonneg : 0 ≤ failures) :
    Bucket.level config ⟨failures, now⟩ now = failures := by
  simp [Bucket.level, nonneg]

theorem Lighter.touch (lighter : Lighter config now mine theirs) :
    Lighter config now mine (theirs.map fun bucket => config.decay bucket now) := by
  refine ⟨?_, ?_⟩
  · intro bucket found
    obtain ⟨before, present, rfl⟩ := map_eq_some_iff.mp found
    have stamped := lighter.stamped before present
    rw [config.decay_eq before stamped.past stamped.nonneg]
    exact ⟨le_rfl, Bucket.level_nonneg config before now⟩
  · intro bucket found
    obtain ⟨stamped, other, present, earlier, below⟩ := lighter.below bucket found
    have stamped' := lighter.stamped other present
    refine ⟨stamped, config.decay other now, by rw [present]; rfl, ?_⟩
    rw [config.decay_eq other stamped'.past stamped'.nonneg]
    exact ⟨stamped.past, by rwa [level_self _ (Bucket.level_nonneg config other now)]⟩

theorem Lighter.touchBoth (lighter : Lighter config now mine theirs) :
    Lighter config now (mine.map fun bucket => config.decay bucket now)
      (theirs.map fun bucket => config.decay bucket now) := by
  refine ⟨lighter.touch.stamped, ?_⟩
  intro bucket found
  obtain ⟨before, present, rfl⟩ := map_eq_some_iff.mp found
  obtain ⟨stamped, other, present', _, below⟩ := lighter.below before present
  have stamped' := lighter.stamped other present'
  rw [config.decay_eq before stamped.past stamped.nonneg]
  refine ⟨⟨le_rfl, Bucket.level_nonneg config before now⟩, config.decay other now,
    by rw [present']; rfl, ?_⟩
  rw [config.decay_eq other stamped'.past stamped'.nonneg]
  refine ⟨le_rfl, ?_⟩
  rwa [level_self _ (Bucket.level_nonneg config before now),
    level_self _ (Bucket.level_nonneg config other now)]

theorem addFailure_eq (found : Option Bucket)
    (stamped : ∀ bucket, found = some bucket → Stamped now bucket)
    (burst : ℤ) :
    Limiter.addFailure config found now burst =
      ⟨min ((burst + 1 : ℤ) : ℚ) ((found.map fun bucket => bucket.level config now).getD 0 + 1),
        now⟩ := by
  have decayed : config.decay (found.getD ⟨0, now⟩) now =
      ⟨(found.map fun bucket => bucket.level config now).getD 0, now⟩ := by
    cases found with
    | none =>
      rw [getD_none, config.decay_eq _ le_rfl le_rfl, level_self 0 le_rfl]
      rfl
    | some bucket =>
      have good := stamped bucket rfl
      exact config.decay_eq bucket good.past good.nonneg
  unfold Limiter.addFailure
  rw [decayed]
  dsimp only
  split
  · rename_i above
    rw [min_eq_left (le_of_lt above)]
  · rename_i below
    rw [min_eq_right (not_lt.mp below)]

theorem Lighter.levels (lighter : Lighter config now mine theirs) :
    (mine.map fun bucket => bucket.level config now).getD 0 ≤
      (theirs.map fun bucket => bucket.level config now).getD 0 := by
  cases here : mine with
  | some bucket =>
    obtain ⟨_, other, present, _, below⟩ := lighter.below bucket here
    rw [present]
    exact below
  | none =>
    cases theirs with
    | none => exact le_rfl
    | some other => exact Bucket.level_nonneg config other now

theorem Lighter.fail (lighter : Lighter config now mine theirs) {burst : ℤ} (positive : 0 < burst) :
    Lighter config now (some (Limiter.addFailure config mine now burst))
      (some (Limiter.addFailure config theirs now burst)) := by
  have room : (0 : ℚ) ≤ ((burst + 1 : ℤ) : ℚ) := by exact_mod_cast by omega
  have nonneg (found : Option Bucket) :
      0 ≤ (found.map fun bucket => bucket.level config now).getD 0 := by
    cases found with
    | none => exact le_rfl
    | some bucket => exact Bucket.level_nonneg config bucket now
  have bounded (found : Option Bucket) :
      0 ≤ min ((burst + 1 : ℤ) : ℚ) ((found.map fun bucket => bucket.level config now).getD 0 + 1) :=
    le_min room (add_nonneg (nonneg found) zero_le_one)
  rw [addFailure_eq mine (fun bucket found => (lighter.below bucket found).1) burst,
    addFailure_eq theirs lighter.stamped burst]
  refine ⟨?_, ?_⟩
  · rintro bucket found
    cases found
    exact ⟨le_rfl, bounded theirs⟩
  · rintro bucket found
    cases found
    refine ⟨⟨le_rfl, bounded mine⟩, _, rfl, le_rfl, ?_⟩
    rw [level_self _ (bounded mine), level_self _ (bounded theirs)]
    exact min_le_min le_rfl (add_le_add_left lighter.levels 1)

theorem swept_eq (stamped : Stamped now bucket) :
    Limiter.swept config now bucket =
      if bucket.level config now ≤ 0 ∨
          (0 < config.refillPerMinute ∧ 2 * config.sweepInterval < now - bucket.lastDecay) then none
      else some ⟨bucket.level config now, now⟩ := by
  unfold Limiter.swept
  rw [config.decay_eq bucket stamped.past stamped.nonneg]

theorem Lighter.sweep (lighter : Lighter config now mine theirs) :
    Lighter config now (mine.bind (Limiter.swept config now))
      (theirs.bind (Limiter.swept config now)) := by
  refine ⟨?_, ?_⟩
  · intro bucket found
    obtain ⟨before, present, kept⟩ := bind_eq_some_iff.mp found
    rw [swept_eq (lighter.stamped before present)] at kept
    split at kept
    · cases kept
    · cases kept
      exact ⟨le_rfl, Bucket.level_nonneg config before now⟩
  · intro bucket found
    obtain ⟨before, present, kept⟩ := bind_eq_some_iff.mp found
    obtain ⟨stamped, other, present', earlier, below⟩ := lighter.below before present
    rw [swept_eq stamped] at kept
    split at kept
    · cases kept
    rename_i stays
    cases kept
    refine ⟨⟨le_rfl, Bucket.level_nonneg config before now⟩, ⟨other.level config now, now⟩,
      ?_, le_rfl, ?_⟩
    · rw [present', bind_some, swept_eq (lighter.stamped other present'), if_neg]
      intro dropped
      apply stays
      rcases dropped with empty | ⟨refills, idle⟩
      · exact .inl (below.trans empty)
      · exact .inr ⟨refills, by linarith⟩
    · rw [level_self _ (Bucket.level_nonneg config before now),
        level_self _ (Bucket.level_nonneg config other now)]
      exact below

end Comparison

section Histories

variable {codec : TokenCodec}

theorem checked_config (limiter : Limiter) (now : Moment) (request : Request) :
    (checked limiter now request).2.config = limiter.config := by
  rcases limiter.checkDetailed_cases now request.ip request.basicUser with
    ⟨_, config, _⟩ | ⟨after, config, _, same⟩
  · exact config
  · unfold checked
    rw [same, (after.checkUser_spec now request.basicUser).1, config]

theorem checked_perUser (limiter : Limiter) (now : Moment) (request : Request) (account : Username) :
    (checked limiter now request).2.perUser account = limiter.perUser account ∨
      (checked limiter now request).2.perUser account =
        (limiter.perUser account).map fun bucket => limiter.config.decay bucket now := by
  rcases limiter.checkDetailed_cases now request.ip request.basicUser with
    ⟨_, _, buckets⟩ | ⟨after, config, buckets, same⟩
  · exact .inl (congrFun buckets account)
  · unfold checked
    rw [same, (after.checkUser_spec now request.basicUser).2.2 account, buckets, config]
    split
    · exact .inr rfl
    · exact .inl rfl

variable {limiter : Limiter} {now : Moment} {request : Request} {store : Store} {rr : RoutedRequest}
  {account : Username}

theorem checked_allowed (allowed : (checked limiter now request).1.allowed = true) :
    (checked limiter now request).2.perUser request.basicUser =
        (if limiter.gatesUser request.basicUser = true then
          (limiter.perUser request.basicUser).map fun bucket => limiter.config.decay bucket now
        else limiter.perUser request.basicUser) ∧
      (limiter.gatesUser request.basicUser = true →
        ∀ bucket, limiter.perUser request.basicUser = some bucket →
          (limiter.config.decay bucket now).failures < limiter.config.userBurst) := by
  rcases limiter.checkDetailed_cases now request.ip request.basicUser with
    ⟨refused, _⟩ | ⟨after, config, buckets, same⟩
  · rw [checked, refused] at allowed
    cases allowed
  · have gates : after.gatesUser request.basicUser = limiter.gatesUser request.basicUser := by
      rw [Limiter.gatesUser, Limiter.gatesUser, config]
    unfold checked at allowed ⊢
    rw [same] at allowed ⊢
    constructor
    · rw [(after.checkUser_spec now request.basicUser).2.2, gates, buckets, config]
      simp
    · have room := (after.checkUser_allowed_iff now request.basicUser).mp allowed
      rwa [gates, buckets, config] at room

def address (k : ℕ) : IP := String.ofList (List.replicate k 'i')

theorem address_injective {j k : ℕ} (same : address j = address k) : j = k := by
  have lists := String.ofList_injective same
  simpa using congrArg length lists

theorem next_request (codec : TokenCodec) (limiter : Limiter) (db : Database) (time : Seconds)
    (moment : Moment) (req : Request) (rr : RoutedRequest) :
    (Occurrence.request db time moment req rr).next codec limiter =
      afterAttempt limiter moment req (attempt (db.store codec time) limiter moment req rr) := by
  rw [Occurrence.next, runAuth_limiter]
  rfl

theorem afterAttempt_config (limiter : Limiter) (now : Moment) (request : Request)
    (outcome : Attempt) : (afterAttempt limiter now request outcome).config = limiter.config := by
  cases outcome <;> unfold afterAttempt
  case failed => rw [Limiter.markFailure_config, checked_config]
  case succeeded => rw [Limiter.markSuccess_config, checked_config]
  all_goals exact checked_config limiter now request

theorem afterAttempt_other
    (noGuess : ¬(request.basicUser = account ∧ attempt store limiter now request rr = .failed))
    (noLogin : ¬(request.basicUser = account ∧
      ∃ verified, attempt store limiter now request rr = .succeeded verified)) :
    (afterAttempt limiter now request (attempt store limiter now request rr)).perUser account =
        limiter.perUser account ∨
      (afterAttempt limiter now request (attempt store limiter now request rr)).perUser account =
        (limiter.perUser account).map fun bucket => limiter.config.decay bucket now := by
  cases outcome : attempt store limiter now request rr <;> unfold afterAttempt
  case failed =>
    have apart : account ≠ request.basicUser := fun same => noGuess ⟨same.symm, outcome⟩
    rw [Limiter.markFailure_perUser, if_neg (fun both => apart both.1)]
    exact checked_perUser limiter now request account
  case succeeded verified =>
    have apart : account ≠ request.basicUser := fun same => noLogin ⟨same.symm, verified, outcome⟩
    rw [Limiter.markSuccess_perUser_of_ne _ _ _ _ _ apart]
    exact checked_perUser limiter now request account
  all_goals exact checked_perUser limiter now request account

theorem attempt_failed (failed : attempt store limiter now request rr = .failed) :
    (checked limiter now request).1.allowed = true ∧ presented store request rr = .failed := by
  unfold attempt at failed
  split at failed
  · rename_i allowed
    exact ⟨allowed, failed⟩
  · cases failed

section Guesses

variable {config : Config} {limiter mine : Limiter} {now : Moment} {request : Request} {k : ℕ}

def moved (request : Request) (k : ℕ) : Request := { request with ip := address k }

@[simp] theorem moved_basicUser : (moved request k).basicUser = request.basicUser := rfl

theorem checked_moved (sameConfig : limiter.config = config) (myConfig : mine.config = config)
    (lighter : Lighter config now (mine.perUser request.basicUser) (limiter.perUser request.basicUser))
    (fresh : mine.perIP (address k) = none)
    (allowed : (checked limiter now request).1.allowed = true) :
    (checked mine now (moved request k)).1.allowed = true := by
  have gate : checked mine now (moved request k) = mine.checkUser now request.basicUser :=
    mine.checkDetailed_of_fresh now (address k) request.basicUser fresh
  rw [gate, Limiter.checkUser_allowed_iff]
  intro gates bucket found
  obtain ⟨stamped, other, present, _, below⟩ := lighter.below bucket found
  have stamped' := lighter.stamped other present
  have theirGates : limiter.gatesUser request.basicUser = true := by
    rw [Limiter.gatesUser, sameConfig, ← myConfig]
    exact gates
  have room := (checked_allowed allowed).2 theirGates other present
  rw [sameConfig, config.decay_eq other stamped'.past stamped'.nonneg] at room
  rw [myConfig, config.decay_eq bucket stamped.past stamped.nonneg]
  exact lt_of_le_of_lt below room

theorem afterFailed_perUser (allowed : (checked limiter now request).1.allowed = true) :
    (afterAttempt limiter now request .failed).perUser request.basicUser =
      if limiter.gatesUser request.basicUser = true then
        some (Limiter.addFailure limiter.config
          ((limiter.perUser request.basicUser).map fun bucket => limiter.config.decay bucket now) now
          limiter.config.userBurst)
      else limiter.perUser request.basicUser := by
  have gates : (checked limiter now request).2.gatesUser request.basicUser =
      limiter.gatesUser request.basicUser := by
    rw [Limiter.gatesUser, Limiter.gatesUser, checked_config]
  unfold afterAttempt
  rw [Limiter.markFailure_perUser, gates, checked_config, (checked_allowed allowed).1]
  cases limiter.gatesUser request.basicUser <;> simp

theorem lighter_failed (sameConfig : limiter.config = config) (myConfig : mine.config = config)
    (lighter : Lighter config now (mine.perUser request.basicUser) (limiter.perUser request.basicUser))
    (allowed : (checked limiter now request).1.allowed = true)
    (allowed' : (checked mine now (moved request k)).1.allowed = true) :
    Lighter config now ((afterAttempt mine now (moved request k) .failed).perUser request.basicUser)
      ((afterAttempt limiter now request .failed).perUser request.basicUser) := by
  have ours := afterFailed_perUser allowed'
  rw [moved_basicUser, myConfig] at ours
  have theirs := afterFailed_perUser allowed
  rw [sameConfig] at theirs
  have sameGates : mine.gatesUser request.basicUser = limiter.gatesUser request.basicUser := by
    rw [Limiter.gatesUser, Limiter.gatesUser, sameConfig, myConfig]
  rw [ours, theirs, sameGates]
  cases gates : limiter.gatesUser request.basicUser with
  | false => simpa using lighter
  | true =>
    have positive : 0 < config.userBurst := by
      rw [Limiter.gatesUser, sameConfig, Bool.and_eq_true] at gates
      exact of_decide_eq_true gates.2
    simpa using lighter.touchBoth.fail positive

theorem fresh_failed (fresh : ∀ j, k ≤ j → mine.perIP (address j) = none) (j : ℕ) (beyond : k < j) :
    (afterAttempt mine now (moved request k) .failed).perIP (address j) = none := by
  have gate : checked mine now (moved request k) = mine.checkUser now request.basicUser :=
    mine.checkDetailed_of_fresh now (address k) request.basicUser (fresh k le_rfl)
  have apart : address j ≠ (moved request k).ip := fun same => by
    have := address_injective same
    omega
  unfold afterAttempt
  rw [Limiter.markFailure_perIP _ _ _ _ _ apart, gate, (mine.checkUser_spec now request.basicUser).2.1]
  exact fresh j (le_of_lt beyond)

end Guesses

/-- A limiter that sees only guesses without a credential, each from an address of its own,
beside the limiter of a history. -/
structure Shadow (config : Config) (account : Username) (now : Moment) (k : ℕ)
    (limiter mine : Limiter) : Prop where
  sameConfig : limiter.config = config
  myConfig : mine.config = config
  lighter : Lighter config now (mine.perUser account) (limiter.perUser account)
  fresh : ∀ j, k ≤ j → mine.perIP (address j) = none

section Shadows

variable {config : Config} {account : Username} {now : Moment} {k : ℕ} {limiter mine : Limiter}

theorem Shadow.mono {later : Moment} (shadow : Shadow config account now k limiter mine)
    (order : now ≤ later) : Shadow config account later k limiter mine :=
  { shadow with lighter := shadow.lighter.mono order }

theorem Shadow.sweep (shadow : Shadow config account now k limiter mine) :
    Shadow config account now k (limiter.sweepOnce now) (mine.sweepOnce now) where
  sameConfig := shadow.sameConfig
  myConfig := shadow.myConfig
  lighter := by
    have swept := shadow.lighter.sweep
    rw [Limiter.sweepOnce, Limiter.sweepOnce, shadow.sameConfig, shadow.myConfig]
    exact swept
  fresh := fun j beyond => by simp [Limiter.sweepOnce, shadow.fresh j beyond]

variable {store : Store} {req : Request} {rr : RoutedRequest}

theorem Shadow.guess (shadow : Shadow config req.basicUser now k limiter mine)
    (failed : attempt store limiter now req rr = .failed) :
    attempt store mine now (moved req k) rr = .failed ∧
      Shadow config req.basicUser now (k + 1) (afterAttempt limiter now req .failed)
        (afterAttempt mine now (moved req k) .failed) := by
  obtain ⟨allowed, wrong⟩ := attempt_failed failed
  have allowed' := checked_moved shadow.sameConfig shadow.myConfig shadow.lighter
    (shadow.fresh k le_rfl) allowed
  constructor
  · rw [attempt, if_pos allowed']
    exact wrong
  · exact {
      sameConfig := (afterAttempt_config _ _ _ _).trans shadow.sameConfig
      myConfig := (afterAttempt_config _ _ _ _).trans shadow.myConfig
      lighter := lighter_failed shadow.sameConfig shadow.myConfig shadow.lighter allowed allowed'
      fresh := fun j beyond => fresh_failed shadow.fresh j beyond }

theorem Shadow.other (shadow : Shadow config account now k limiter mine)
    (noGuess : ¬(req.basicUser = account ∧ attempt store limiter now req rr = .failed))
    (noLogin : ¬(req.basicUser = account ∧
      ∃ verified, attempt store limiter now req rr = .succeeded verified)) :
    Shadow config account now k (afterAttempt limiter now req (attempt store limiter now req rr))
      mine where
  sameConfig := (afterAttempt_config _ _ _ _).trans shadow.sameConfig
  myConfig := shadow.myConfig
  lighter := by
    rcases afterAttempt_other noGuess noLogin with same | decayed
    · rw [same]
      exact shadow.lighter
    · rw [decayed, shadow.sameConfig]
      exact shadow.lighter.touch
  fresh := shadow.fresh

end Shadows

/-- The guesses of a history that no login to the account interrupts can be made without any
credential, at the same times and from other addresses. -/
theorem guesses_without_credential {config : Config} {history : List Occurrence} :
    ∀ {limiter mine : Limiter} {now : Moment} {k : ℕ}, Shadow config account now k limiter mine →
      history.Pairwise (fun earlier later => earlier.moment ≤ later.moment) →
      (∀ o ∈ history, now ≤ o.moment) → (∀ o ∈ history, ∀ l, ¬o.Resets codec l account) →
      ∃ guesses : List Occurrence, (∀ o ∈ guesses, o.WithoutCredential codec) ∧
        (guesses.map Occurrence.withoutAddress).Sublist (history.map Occurrence.withoutAddress) ∧
        guesses.filter Occurrence.isSweep = history.filter Occurrence.isSweep ∧
        passedGuesses codec account limiter history ≤ passedGuesses codec account mine guesses := by
  induction history with
  | nil =>
    intro limiter mine now k _ _ _ _
    exact ⟨[], by simp, .slnil, rfl, le_rfl⟩
  | cons occurrence rest ih =>
    intro limiter mine now k shadow ordered after noLogin
    obtain ⟨first, later⟩ := pairwise_cons.mp ordered
    have current := after occurrence mem_cons_self
    have quiet : ∀ o ∈ rest, ∀ l, ¬o.Resets codec l account :=
      fun o member => noLogin o (mem_cons_of_mem _ member)
    cases occurrence with
    | sweep moment =>
      have shadow : Shadow config account moment k limiter mine := shadow.mono current
      obtain ⟨guesses, clean, sub, sweeps, count⟩ := ih shadow.sweep later first quiet
      refine ⟨.sweep moment :: guesses, forall_mem_cons.mpr ⟨trivial, clean⟩,
        .cons_cons _ sub, ?_, ?_⟩
      · rw [filter_cons_of_pos rfl, filter_cons_of_pos rfl, sweeps]
      · simpa [passedGuesses, Occurrence.passedGuess, Occurrence.next] using count
    | request db time moment req rr =>
      have shadow : Shadow config account moment k limiter mine := shadow.mono current
      by_cases guess : req.basicUser = account ∧
          attempt (db.store codec time) limiter moment req rr = .failed
      · obtain ⟨rfl, failed⟩ := guess
        obtain ⟨failed', shadow'⟩ := shadow.guess failed
        obtain ⟨guesses, clean, sub, sweeps, count⟩ := ih shadow' later first quiet
        refine ⟨.request db time moment (moved req k) rr :: guesses,
          forall_mem_cons.mpr ⟨(attempt_failed failed).2, clean⟩,
          .cons_cons _ sub, ?_, ?_⟩
        · rw [filter_cons_of_neg (by simp [Occurrence.isSweep]),
            filter_cons_of_neg (by simp [Occurrence.isSweep]), sweeps]
        · simpa [passedGuesses, Occurrence.passedGuess, next_request, failed, failed'] using count
      · have shadow' := shadow.other guess (noLogin _ mem_cons_self limiter)
        obtain ⟨guesses, clean, sub, sweeps, count⟩ := ih shadow' later first quiet
        refine ⟨guesses, clean, .cons _ sub, ?_, ?_⟩
        · rw [filter_cons_of_neg (by simp [Occurrence.isSweep]), sweeps]
        · simpa [passedGuesses, Occurrence.passedGuess, guess, next_request] using count

theorem attempt_new (config : Config) (store : Store) (now : Moment) (request : Request)
    (rr : RoutedRequest) :
    attempt store (newLimiter config) now request rr = presented store request rr := by
  have allowed : (checked (newLimiter config) now request).1.allowed = true := by
    rw [checked, Limiter.checkDetailed_of_fresh _ _ _ _ rfl, Limiter.checkUser]
    split <;> rfl
  rw [attempt, if_pos allowed]

/-- If every login to an account comes from its holder, then no bound credential is presented
under the name of another user. -/
theorem underOwnName_of_heldBy {occurrence : Occurrence}
    (held : ∀ account limiter, occurrence.HasUser account →
      occurrence.Resets codec limiter account → occurrence.HeldBy codec account) :
    occurrence.UnderOwnName codec := by
  cases occurrence with
  | sweep moment => trivial
  | request db time moment req rr =>
    intro verified good _ known
    have resets : (Occurrence.request db time moment req rr).Resets codec
        (newLimiter defaultConfig) req.basicUser :=
      ⟨rfl, verified, (attempt_new defaultConfig _ moment req rr).trans good⟩
    obtain ⟨verified', user, good', owner, named⟩ := held req.basicUser _ known resets
    obtain rfl : verified' = verified := Attempt.succeeded.inj (good'.symm.trans good)
    exact ⟨user, owner, named⟩

/-- If no bound credential is presented under the name of another user, the failures against an
account are cleared by its holder only, and the credentials of others let no guess through that
could not be made without any. Conversely it is enough that no request of the history but the
holder's would clear them in any state of the limiter. -/
theorem throttle_cleared_by_holder_iff (codec : TokenCodec) (config : Config)
    (history : List Occurrence)
    (ordered : history.Pairwise fun earlier later => earlier.moment ≤ later.moment) :
    (∀ o ∈ history, o.UnderOwnName codec) ↔
      ∀ account,
        (∀ o ∈ history, ∀ limiter, o.HasUser account → o.Resets codec limiter account →
          o.HeldBy codec account) ∧
        ((∀ o ∈ history, o.HasUser account ∧ ¬o.HeldBy codec account) →
          ∃ guesses : List Occurrence, (∀ o ∈ guesses, o.WithoutCredential codec) ∧
            (guesses.map Occurrence.withoutAddress).Sublist
              (history.map Occurrence.withoutAddress) ∧
            guesses.filter Occurrence.isSweep = history.filter Occurrence.isSweep ∧
            passedGuesses codec account (newLimiter config) history ≤
              passedGuesses codec account (newLimiter config) guesses) := by
  constructor
  · intro own account
    refine ⟨fun o member limiter known resets => heldBy_of_resets (own o member) known resets, ?_⟩
    intro others
    have quiet : ∀ o ∈ history, ∀ limiter, ¬o.Resets codec limiter account :=
      fun o member limiter resets =>
        (others o member).2 (heldBy_of_resets (own o member) (others o member).1 resets)
    cases history with
    | nil => exact ⟨[], by simp, .slnil, rfl, le_rfl⟩
    | cons occurrence rest =>
      have after : ∀ o ∈ occurrence :: rest, occurrence.moment ≤ o.moment :=
        forall_mem_cons.mpr ⟨le_rfl, (pairwise_cons.mp ordered).1⟩
      have shadow : Shadow (newLimiter config).config account occurrence.moment 0
          (newLimiter config) (newLimiter config) :=
        ⟨rfl, rfl, lighter_none _ _, fun _ _ => rfl⟩
      exact guesses_without_credential shadow ordered after quiet
  · intro cleared o member
    exact underOwnName_of_heldBy fun account limiter known resets =>
      (cleared account).1 o member limiter known resets

def sharedDb : Database :=
  { builtWorld.db with users := ⟨"V", "victim", false, none⟩ :: builtWorld.db.users }

def strictConfig : Config := { defaultConfig with userBurst := 2, refillPerMinute := 0 }

def guess (moment : Moment) : Occurrence :=
  .request sharedDb 0 moment { fetchApp with basicAuth := some ⟨"victim", "guess"⟩ } routeApp

def buildLogin (name : Username) (moment : Moment) : Occurrence :=
  .request sharedDb 0 moment { fetchApp with basicAuth := some ⟨name, "T"⟩ } routeApp

theorem presented_guess :
    presented (sharedDb.store plainCodec 0)
      { fetchApp with basicAuth := some ⟨"victim", "guess"⟩ } routeApp = .failed := rfl

theorem presented_buildLogin (name : Username) :
    presented (sharedDb.store plainCodec 0)
      { fetchApp with basicAuth := some ⟨name, "T"⟩ } routeApp =
        .succeeded ⟨⟨"_build", "build:acme/app:ci", false⟩, "T", some ⟨"acme", "app", .read⟩⟩ := rfl

theorem guess_not_heldBy (moment : Moment) : ¬(guess moment).HeldBy plainCodec "victim" := by
  rintro ⟨verified, user, good, _⟩
  exact absurd (presented_guess.symm.trans good) (by simp)

theorem buildLogin_not_heldBy (name : Username) (moment : Moment) :
    ¬(buildLogin name moment).HeldBy plainCodec "victim" := by
  rintro ⟨verified, user, good, owner, named⟩
  obtain rfl := Attempt.succeeded.inj ((presented_buildLogin name).symm.trans good)
  have service : sharedDb.user "_build" = some ⟨"_build", "_build", false, none⟩ := by decide
  obtain rfl := some.inj (service.symm.trans owner)
  exact absurd named (by decide)

/-- The build token under a name that no user has clears nothing. -/
def mixedHistory : List Occurrence := [guess 0, buildLogin "x-access-token" 1, guess 2]

theorem build_login_clears_nothing :
    passedGuesses plainCodec "victim" (newLimiter strictConfig) (mixedHistory ++ [guess 3]) = 2 ∧
      ∃ guesses : List Occurrence, (∀ o ∈ guesses, o.WithoutCredential plainCodec) ∧
        (guesses.map Occurrence.withoutAddress).Sublist
          (mixedHistory.map Occurrence.withoutAddress) ∧
        guesses.filter Occurrence.isSweep = mixedHistory.filter Occurrence.isSweep ∧
        passedGuesses plainCodec "victim" (newLimiter strictConfig) mixedHistory ≤
          passedGuesses plainCodec "victim" (newLimiter strictConfig) guesses := by
  refine ⟨by decide +kernel, ?_⟩
  have ordered : mixedHistory.Pairwise fun earlier later => earlier.moment ≤ later.moment := by
    simp [mixedHistory, buildLogin, guess, Occurrence.moment]
  have guessed (moment : Moment) : (guess moment).UnderOwnName plainCodec :=
    fun verified good => absurd (presented_guess.symm.trans good) (by simp)
  refine ((throttle_cleared_by_holder_iff plainCodec strictConfig _ ordered).mp ?_ "victim").2 ?_
  · refine forall_mem_cons.mpr ⟨guessed 0, forall_mem_cons.mpr ⟨?_, forall_mem_singleton.mpr
      (guessed 2)⟩⟩
    intro verified _ _ known
    exact absurd known (by decide)
  · refine forall_mem_cons.mpr ⟨⟨⟨_, mem_cons_self, rfl⟩, guess_not_heldBy _⟩,
      forall_mem_cons.mpr ⟨⟨⟨_, mem_cons_self, rfl⟩, buildLogin_not_heldBy _ _⟩,
        forall_mem_singleton.mpr ⟨⟨_, mem_cons_self, rfl⟩, guess_not_heldBy _⟩⟩⟩

/-- A build token that is sent along with the name of a user clears the failures against that
user, and a third guess gets through where two are allowed. -/
theorem build_login_clears_failures :
    (buildLogin "victim" 1).Resets plainCodec
        ((guess 0).next plainCodec (newLimiter strictConfig)) "victim" ∧
      ¬(buildLogin "victim" 1).HeldBy plainCodec "victim" ∧
      passedGuesses plainCodec "victim" (newLimiter strictConfig)
        [guess 0, buildLogin "victim" 1, guess 2, guess 3] = 3 ∧
      passedGuesses plainCodec "victim" (newLimiter strictConfig) [guess 0, guess 2, guess 3] = 2 := by
  refine ⟨⟨rfl, ?_⟩, buildLogin_not_heldBy _ _, by decide +kernel, by decide +kernel⟩
  exact ⟨⟨⟨"_build", "build:acme/app:ci", false⟩, "T", some ⟨"acme", "app", .read⟩⟩,
    by decide +kernel⟩

end Histories

end BucketVcs.Gateway
