import BucketVcs.Gateway.Throttle

/-! How many failed attempts from one address get past the limiter. The buckets, made and evicted
as they are, stand for a leaky counter for each address and each account. -/

namespace BucketVcs.Gateway

open Auth Leaky List Option

inductive LimiterCall where
  | checkDetailed (ip : IP) (user : Username)
  | markFailure (ip : IP) (user : Username)
  | markSuccess (ip : IP) (user : Username)
  | sweepOnce
  deriving DecidableEq, Repr

structure TimedCall where
  now : Moment
  call : LimiterCall

section Calls

def afterCall (limiter : Limiter) : TimedCall → Limiter
  | ⟨now, .checkDetailed ip user⟩ => (limiter.checkDetailed now ip user).2
  | ⟨now, .markFailure ip user⟩ => limiter.markFailure now ip user
  | ⟨now, .markSuccess ip user⟩ => limiter.markSuccess now ip user
  | ⟨now, .sweepOnce⟩ => limiter.sweepOnce now

def verdictOf (limiter : Limiter) : TimedCall → Option Verdict
  | ⟨now, .checkDetailed ip user⟩ => some (limiter.checkDetailed now ip user).1
  | _ => none

def verdicts : Limiter → List TimedCall → List Verdict
  | _, [] => []
  | limiter, c :: rest => (verdictOf limiter c).toList ++ verdicts (afterCall limiter c) rest

def failsNext (ip : IP) : List TimedCall → Bool
  | [] => false
  | ⟨_, .checkDetailed ip' _⟩ :: rest => if ip' = ip then false else failsNext ip rest
  | ⟨_, .markFailure ip' _⟩ :: rest => if ip' = ip then true else failsNext ip rest
  | _ :: rest => failsNext ip rest

def passes (ip : IP) (limiter : Limiter) : TimedCall → Bool
  | ⟨now, .checkDetailed ip' user⟩ => ip' = ip && (limiter.checkDetailed now ip' user).1.allowed
  | _ => false

/-- The attempts of a span of time that pass the check and are then marked as failures. -/
def failedAttempts (ip : IP) (first last : Moment) : Limiter → List TimedCall → ℕ
  | _, [] => 0
  | limiter, c :: rest =>
    (if passes ip limiter c = true ∧ first ≤ c.now ∧ c.now ≤ last ∧ failsNext ip rest = true then 1
      else 0) + failedAttempts ip first last (afterCall limiter c) rest

/-- No sweep is later than two intervals after the one before it. -/
def SweptInTime (interval : ℚ) : Moment → List TimedCall → Prop
  | _, [] => True
  | since, ⟨now, .sweepOnce⟩ :: rest => now - since ≤ 2 * interval ∧ SweptInTime interval now rest
  | since, _ :: rest => SweptInTime interval since rest

end Calls

section Buckets

def loadOf (config : Config) (now : Moment) (found : Option Bucket) : ℚ :=
  (found.map fun bucket => bucket.level config now).getD 0

/-- A bucket stands for a counter, and was touched since the last sweep. -/
structure Stands (config : Config) (now since : Moment) (found : Option Bucket) (c : Counter ℚ) :
    Prop where
  stamped : ∀ bucket, found = some bucket → Stamped now bucket
  touched : ∀ bucket, found = some bucket → since ≤ bucket.lastDecay
  past : c.since ≤ now
  load : loadOf config now found = c.level config.rate now

variable {config : Config} {now since : Moment} {found : Option Bucket} {c : Counter ℚ}

variable {later : Moment}

theorem loadOf_later (order : now ≤ later) (found : Option Bucket) :
    loadOf config later found =
      Counter.level config.rate ⟨loadOf config now found, now⟩ later := by
  cases found with
  | none =>
    have loss : 0 ≤ config.rate * (later - now) :=
      mul_nonneg config.rate_nonneg (sub_nonneg.mpr order)
    simp [loadOf, Counter.level, loss]
  | some bucket => exact Bucket.level_later config bucket order

theorem Stands.mono (stands : Stands config now since found c) (order : now ≤ later) :
    Stands config later since found c where
  stamped := fun bucket present => (stands.stamped bucket present).mono order
  touched := stands.touched
  past := stands.past.trans order
  load := by
    rw [loadOf_later order, stands.load]
    exact c.level_level config.rate_nonneg order

theorem stands_new {failures : ℚ} (nonneg : 0 ≤ failures) (seen : since ≤ now) :
    Stands config now since (some ⟨failures, now⟩) ⟨failures, now⟩ where
  stamped := by
    intro bucket present
    cases present
    exact ⟨le_rfl, nonneg⟩
  touched := by
    intro bucket present
    cases present
    exact seen
  past := le_rfl
  load := rfl

section

variable (stands : Stands config now since found c)

include stands

theorem Stands.decayed {bucket : Bucket} (present : found = some bucket) :
    config.decay bucket now = ⟨c.level config.rate now, now⟩ := by
  have stamped := stands.stamped bucket present
  rw [config.decay_eq bucket stamped.past stamped.nonneg, ← stands.load, present]
  rfl

theorem Stands.congr {other : Counter ℚ} (past : other.since ≤ now)
    (same : other.level config.rate now = c.level config.rate now) :
    Stands config now since found other :=
  ⟨stands.stamped, stands.touched, past, stands.load.trans same.symm⟩

theorem Stands.touch (seen : since ≤ now) :
    Stands config now since (found.map fun bucket => config.decay bucket now) c := by
  cases present : found with
  | none =>
    subst present
    exact stands
  | some bucket =>
    rw [map_some, stands.decayed present]
    refine (stands_new (c.level_nonneg _ _) seen).congr stands.past ?_
    rw [Counter.level_self (c.level_nonneg _ _)]

theorem Stands.fail (seen : since ≤ now) {burst : ℤ} (room : 0 ≤ burst) :
    Stands config now since (some (Limiter.addFailure config found now burst))
      (c.beat config.rate (burst + 1) now .hit) := by
  have bounded : (0 : ℚ) ≤ min ((burst + 1 : ℤ) : ℚ) (c.level config.rate now + 1) :=
    le_min (by exact_mod_cast by omega) (add_nonneg (c.level_nonneg _ _) zero_le_one)
  have loaded : (found.map fun bucket => bucket.level config now).getD 0 = c.level config.rate now :=
    stands.load
  have made : Stands config now since (some ⟨_, now⟩) _ := stands_new bounded seen
  rw [addFailure_eq found stands.stamped burst, loaded]
  simpa [Counter.beat] using made

theorem Stands.succeed (seen : since ≤ now) (ceiling : ℚ) :
    Stands config now since (found.map fun _ => ⟨0, now⟩) (c.beat config.rate ceiling now .reset) := by
  cases present : found with
  | some bucket => exact stands_new le_rfl seen
  | none =>
    subst present
    exact ⟨stands.stamped, stands.touched, le_rfl, (Counter.level_self le_rfl).symm⟩

theorem Stands.sweep (inTime : now - since ≤ 2 * config.sweepInterval) :
    Stands config now now (found.bind (Limiter.swept config now)) c := by
  have absent (empty : c.level config.rate now = 0) : Stands config now now none c :=
    ⟨by simp, by simp, stands.past, empty.symm⟩
  cases present : found with
  | none =>
    subst present
    exact absent stands.load.symm
  | some bucket =>
    have same : bucket.level config now = c.level config.rate now := by
      rw [← stands.load, present]
      rfl
    have recent := stands.touched bucket present
    rw [bind_some, swept_eq (stands.stamped bucket present), same]
    split
    · rename_i evicted
      apply absent
      rcases evicted with empty | ⟨_, idle⟩
      · exact le_antisymm empty (c.level_nonneg _ _)
      · linarith
    · refine (stands_new (c.level_nonneg _ _) le_rfl).congr stands.past ?_
      rw [Counter.level_self (c.level_nonneg _ _)]

end

end Buckets

section Calls

variable (limiter : Limiter) (now : Moment) (ip : IP) (user : Username)

theorem checkDetailed_touches :
    (limiter.checkDetailed now ip user).2.config = limiter.config ∧
      (∀ other, (limiter.checkDetailed now ip user).2.perIP other = limiter.perIP other ∨
        (limiter.checkDetailed now ip user).2.perIP other =
          (limiter.perIP other).map fun bucket => limiter.config.decay bucket now) ∧
      ∀ other, (limiter.checkDetailed now ip user).2.perUser other = limiter.perUser other ∨
        (limiter.checkDetailed now ip user).2.perUser other =
          (limiter.perUser other).map fun bucket => limiter.config.decay bucket now := by
  have gate (checked : Limiter) (sameConfig : checked.config = limiter.config)
      (sameUsers : checked.perUser = limiter.perUser) (other : Username) :
      (checked.checkUser now user).2.perUser other = limiter.perUser other ∨
        (checked.checkUser now user).2.perUser other =
          (limiter.perUser other).map fun bucket => limiter.config.decay bucket now := by
    rw [(checked.checkUser_spec now user).2.2 other, sameConfig, sameUsers]
    split
    · exact .inr rfl
    · exact .inl rfl
  unfold Limiter.checkDetailed
  split
  · rename_i found present
    have decays (other : IP) :
        (limiter.setIP ip (limiter.config.decay found now)).perIP other = limiter.perIP other ∨
          (limiter.setIP ip (limiter.config.decay found now)).perIP other =
            (limiter.perIP other).map fun bucket => limiter.config.decay bucket now := by
      rw [Limiter.setIP_perIP]
      split
      · rename_i same
        rw [same, present]
        exact .inr rfl
      · exact .inl rfl
    dsimp only
    split
    · exact ⟨rfl, decays, fun other => .inl rfl⟩
    · have spec := (limiter.setIP ip (limiter.config.decay found now)).checkUser_spec now user
      refine ⟨spec.1, ?_, gate _ rfl rfl⟩
      rw [spec.2.1]
      exact decays
  · have spec := limiter.checkUser_spec now user
    refine ⟨spec.1, ?_, gate _ rfl rfl⟩
    rw [spec.2.1]
    exact fun other => .inl rfl

theorem markFailure_perIP_self :
    (limiter.markFailure now ip user).perIP ip =
      some (Limiter.addFailure limiter.config (limiter.perIP ip) now limiter.config.burst) := by
  unfold Limiter.markFailure
  dsimp only
  split <;> simp [Limiter.setIP_perIP]

theorem markSuccess_perIP (other : IP) :
    (limiter.markSuccess now ip user).perIP other =
      if other = ip then (limiter.perIP other).map fun _ => ⟨0, now⟩ else limiter.perIP other := by
  have reset (found : limiter.perIP ip = none) :
      (if other = ip then (limiter.perIP other).map fun _ => ⟨0, now⟩ else limiter.perIP other) =
        limiter.perIP other := by
    split
    case isTrue same => rw [same, found, map_none]
    case isFalse => rfl
  have written (bucket : Bucket) (found : limiter.perIP ip = some bucket) :
      (if other = ip then (limiter.perIP other).map fun _ => ⟨0, now⟩ else limiter.perIP other) =
        (limiter.setIP ip ⟨0, now⟩).perIP other := by
    rw [Limiter.setIP_perIP]
    split
    case isTrue same => rw [same, found, map_some]
    case isFalse => rfl
  unfold Limiter.markSuccess
  cases found : limiter.perIP ip with
  | none =>
    rw [reset found]
    dsimp only
    split
    · split
      · rw [Limiter.setUser_perIP]
      · rfl
    · rfl
  | some bucket =>
    rw [written bucket found]
    dsimp only
    split
    · split
      · rw [Limiter.setUser_perIP]
      · rfl
    · rfl

theorem markSuccess_perUser (other : Username) :
    (limiter.markSuccess now ip user).perUser other =
      if other = user ∧ user ≠ "" then (limiter.perUser other).map fun _ => ⟨0, now⟩
      else limiter.perUser other := by
  by_cases same : other = user
  · subst same
    unfold Limiter.markSuccess
    dsimp only
    split <;> split <;> (try split) <;> simp_all [Limiter.setUser_perUser]
  · rw [limiter.markSuccess_perUser_of_ne now ip user other same]
    simp [same]

end Calls

section Loads

structure Loads where
  ip : IP → Counter ℚ
  user : Username → Counter ℚ

def ipBeat (ip : IP) : LimiterCall → Option Beat
  | .checkDetailed ip' _ => if ip' = ip then some .probe else none
  | .markFailure ip' _ => if ip' = ip then some .hit else none
  | .markSuccess ip' _ => if ip' = ip then some .reset else none
  | .sweepOnce => none

def userBeat (config : Config) (user : Username) : LimiterCall → Option Beat
  | .markFailure _ user' =>
    if user = user' ∧ user' ≠ "" ∧ 0 < config.userBurst then some .hit else none
  | .markSuccess _ user' => if user = user' ∧ user' ≠ "" then some .reset else none
  | _ => none

def tick (rate ceiling : ℚ) (c : Counter ℚ) (now : Moment) : Option Beat → Counter ℚ
  | some b => c.beat rate ceiling now b
  | none => c

def Loads.after (config : Config) (loads : Loads) (c : TimedCall) : Loads where
  ip := fun ip => tick config.rate (config.burst + 1) (loads.ip ip) c.now (ipBeat ip c.call)
  user := fun user =>
    tick config.rate (config.userBurst + 1) (loads.user user) c.now (userBeat config user c.call)

def throttle (config : Config) (now : Moment) (user : Username) (ipLoad userLoad : ℚ) : Verdict :=
  if config.burst ≤ ipLoad then ⟨false, config.retryAfter ⟨ipLoad, now⟩ config.burst, .ip⟩
  else if (user ≠ "" ∧ 0 < config.userBurst) ∧ config.userBurst ≤ userLoad then
    ⟨false, config.retryAfter ⟨userLoad, now⟩ config.userBurst, .user⟩
  else Limiter.pass

def Loads.verdictOf (config : Config) (loads : Loads) : TimedCall → Option Verdict
  | ⟨now, .checkDetailed ip user⟩ =>
    some (throttle config now user ((loads.ip ip).level config.rate now)
      ((loads.user user).level config.rate now))
  | _ => none

def Loads.verdicts (config : Config) : Loads → List TimedCall → List Verdict
  | _, [] => []
  | loads, c :: rest =>
    (loads.verdictOf config c).toList ++ Loads.verdicts config (loads.after config c) rest

structure Models (config : Config) (now since : Moment) (limiter : Limiter) (loads : Loads) :
    Prop where
  config_eq : limiter.config = config
  seen : since ≤ now
  ip : ∀ ip, Stands config now since (limiter.perIP ip) (loads.ip ip)
  user : ∀ user, Stands config now since (limiter.perUser user) (loads.user user)

variable {config : Config} {now since : Moment} {limiter : Limiter} {loads : Loads}

section

variable (models : Models config now since limiter loads)

include models

theorem Models.mono {later : Moment} (order : now ≤ later) :
    Models config later since limiter loads where
  config_eq := models.config_eq
  seen := models.seen.trans order
  ip := fun ip => (models.ip ip).mono order
  user := fun user => (models.user user).mono order

theorem Models.checkUser {user : Username} {ipLoad : ℚ} (room : ipLoad < config.burst) :
    (limiter.checkUser now user).1 =
      throttle config now user ipLoad ((loads.user user).level config.rate now) := by
  have gates : limiter.gatesUser user = true ↔ user ≠ "" ∧ 0 < config.userBurst := by
    simp [Limiter.gatesUser, models.config_eq]
  rw [throttle, if_neg (not_le.mpr room)]
  unfold Limiter.checkUser
  by_cases gated : limiter.gatesUser user = true
  · have enabled := gates.mp gated
    rw [if_pos gated]
    cases present : limiter.perUser user with
    | none =>
      have empty := (models.user user).load
      rw [present] at empty
      rw [if_neg]
      intro full
      have positive : (0 : ℚ) < config.userBurst := by exact_mod_cast enabled.2
      have level : (0 : ℚ) = (loads.user user).level config.rate now := empty
      linarith [full.2]
    | some found =>
      simp only [models.config_eq, (models.user user).decayed present, Limiter.setUser_config]
      by_cases full : (config.userBurst : ℚ) ≤ (loads.user user).level config.rate now
      · rw [if_pos full, if_pos ⟨enabled, full⟩]
      · rw [if_neg full, if_neg fun both => full both.2]
  · rw [if_neg gated, if_neg fun both => gated (gates.mpr both.1)]

theorem Models.checkDetailed (burst : 1 ≤ config.burst) (ip : IP) (user : Username) :
    (limiter.checkDetailed now ip user).1 =
      throttle config now user ((loads.ip ip).level config.rate now)
        ((loads.user user).level config.rate now) := by
  unfold Limiter.checkDetailed
  cases present : limiter.perIP ip with
  | none =>
    have empty := (models.ip ip).load
    rw [present] at empty
    refine models.checkUser ?_
    have level : (0 : ℚ) = (loads.ip ip).level config.rate now := empty
    have positive : (1 : ℚ) ≤ config.burst := by exact_mod_cast burst
    linarith
  | some found =>
    simp only [models.config_eq, (models.ip ip).decayed present, Limiter.setIP_config]
    split
    · rename_i full
      rw [throttle, if_pos full]
    · rename_i room
      have same : Models config now since
          (limiter.setIP ip ⟨(loads.ip ip).level config.rate now, now⟩) loads := by
        refine ⟨models.config_eq, models.seen, ?_, models.user⟩
        intro other
        rw [Limiter.setIP_perIP]
        split
        · rename_i this
          subst this
          have touched := (models.ip other).touch models.seen
          rw [present, map_some, (models.ip other).decayed present] at touched
          exact touched
        · exact models.ip other
      exact same.checkUser (not_le.mp room)

end

def lastSweep (since : Moment) : TimedCall → Moment
  | ⟨now, .sweepOnce⟩ => now
  | _ => since

variable {c : TimedCall} {rest calls : List TimedCall}

theorem sweptInTime_cons {interval : ℚ} :
    SweptInTime interval since (c :: rest) ↔
      (c.call = .sweepOnce → c.now - since ≤ 2 * interval) ∧
        SweptInTime interval (lastSweep since c) rest := by
  obtain ⟨now, call⟩ := c
  cases call <;> simp [SweptInTime, lastSweep]

section

variable (models : Models config now since limiter loads)

include models

theorem Models.check (ip : IP) (user : Username) :
    Models config now since (limiter.checkDetailed now ip user).2
      (loads.after config ⟨now, .checkDetailed ip user⟩) := by
  have touches := checkDetailed_touches limiter now ip user
  rw [models.config_eq] at touches
  obtain ⟨sameConfig, ips, users⟩ := touches
  refine ⟨sameConfig, models.seen, ?_, ?_⟩
  · intro other
    have stands : Stands config now since ((limiter.checkDetailed now ip user).2.perIP other)
        (loads.ip other) := by
      rcases ips other with same | decayed
      · rw [same]
        exact models.ip other
      · rw [decayed]
        exact (models.ip other).touch models.seen
    simp only [Loads.after, ipBeat]
    split
    · exact stands.congr le_rfl (Counter.level_self (Counter.level_nonneg _ _ _))
    · exact stands
  · intro other
    rcases users other with same | decayed
    · rw [same]
      exact models.user other
    · rw [decayed]
      exact (models.user other).touch models.seen

theorem Models.fail (burst : 1 ≤ config.burst) (ip : IP) (user : Username) :
    Models config now since (limiter.markFailure now ip user)
      (loads.after config ⟨now, .markFailure ip user⟩) := by
  refine ⟨(limiter.markFailure_config now ip user).trans models.config_eq, models.seen, ?_, ?_⟩
  · intro other
    simp only [Loads.after, ipBeat]
    split
    · rename_i same
      subst same
      rw [markFailure_perIP_self, models.config_eq]
      exact (models.ip ip).fail models.seen (by omega)
    · rename_i apart
      rw [limiter.markFailure_perIP now ip user other fun same => apart same.symm]
      exact models.ip other
  · intro other
    have gates : limiter.gatesUser user = true ↔ user ≠ "" ∧ 0 < config.userBurst := by
      simp [Limiter.gatesUser, models.config_eq]
    rw [limiter.markFailure_perUser now ip user other, models.config_eq]
    simp only [Loads.after, userBeat, gates]
    split
    · rename_i gated
      exact (models.user other).fail models.seen (le_of_lt gated.2.2)
    · exact models.user other

theorem Models.succeed (ip : IP) (user : Username) :
    Models config now since (limiter.markSuccess now ip user)
      (loads.after config ⟨now, .markSuccess ip user⟩) := by
  refine ⟨(limiter.markSuccess_config now ip user).trans models.config_eq, models.seen, ?_, ?_⟩
  · intro other
    rw [markSuccess_perIP]
    simp only [Loads.after, ipBeat, eq_comm (a := ip)]
    split
    · exact (models.ip other).succeed models.seen (config.burst + 1)
    · exact models.ip other
  · intro other
    rw [markSuccess_perUser]
    simp only [Loads.after, userBeat]
    split
    · exact (models.user other).succeed models.seen (config.userBurst + 1)
    · exact models.user other

theorem Models.sweep (inTime : now - since ≤ 2 * config.sweepInterval) :
    Models config now now (limiter.sweepOnce now) loads := by
  refine ⟨models.config_eq, le_rfl, ?_, ?_⟩
  · intro ip
    simp only [Limiter.sweepOnce, models.config_eq]
    exact (models.ip ip).sweep inTime
  · intro user
    simp only [Limiter.sweepOnce, models.config_eq]
    exact (models.user user).sweep inTime

end

theorem Models.after (models : Models config c.now since limiter loads) (burst : 1 ≤ config.burst)
    (inTime : c.call = .sweepOnce → c.now - since ≤ 2 * config.sweepInterval) :
    Models config c.now (lastSweep since c) (afterCall limiter c) (loads.after config c) := by
  obtain ⟨now, call⟩ := c
  cases call with
  | checkDetailed ip user => exact models.check ip user
  | markFailure ip user => exact models.fail burst ip user
  | markSuccess ip user => exact models.succeed ip user
  | sweepOnce => exact models.sweep (inTime rfl)

theorem Models.verdictOf (models : Models config c.now since limiter loads)
    (burst : 1 ≤ config.burst) : Gateway.verdictOf limiter c = loads.verdictOf config c := by
  obtain ⟨now, call⟩ := c
  cases call with
  | checkDetailed ip user => exact congrArg some (models.checkDetailed burst ip user)
  | _ => rfl

def Chronological (now : Moment) (calls : List TimedCall) : Prop :=
  List.IsChain (· ≤ ·) (now :: calls.map TimedCall.now)

theorem chronological_cons :
    Chronological now (c :: rest) ↔ now ≤ c.now ∧ Chronological c.now rest :=
  isChain_cons_cons

/-- Over a whole history the limiter gives the verdicts of the counters. -/
theorem Models.verdicts (models : Models config now since limiter loads) (burst : 1 ≤ config.burst)
    (chronological : Chronological now calls)
    (inTime : SweptInTime config.sweepInterval since calls) :
    Gateway.verdicts limiter calls = loads.verdicts config calls := by
  induction calls generalizing now since limiter loads with
  | nil => rfl
  | cons c rest ih =>
    obtain ⟨order, later⟩ := chronological_cons.mp chronological
    obtain ⟨onTime, inTime'⟩ := sweptInTime_cons.mp inTime
    have models' := models.mono order
    rw [Gateway.verdicts, Loads.verdicts, models'.verdictOf burst,
      ih (models'.after burst onTime) later inTime']

theorem Loads.verdicts_withoutSweeps (loads : Loads) (calls : List TimedCall) :
    loads.verdicts config (calls.filter fun c => c.call ≠ .sweepOnce) = loads.verdicts config calls := by
  induction calls generalizing loads with
  | nil => rfl
  | cons c rest ih =>
    obtain ⟨now, call⟩ := c
    cases call with
    | sweepOnce => exact ih loads
    | _ =>
      rw [filter_cons_of_pos (by simp), Loads.verdicts, Loads.verdicts, ih]

theorem sweptInTime_withoutSweeps (interval : ℚ) (since : Moment) (calls : List TimedCall) :
    SweptInTime interval since (calls.filter fun c => c.call ≠ .sweepOnce) := by
  induction calls with
  | nil => trivial
  | cons c rest ih =>
    obtain ⟨now, call⟩ := c
    cases call with
    | sweepOnce => exact ih
    | _ =>
      exact ih

theorem chronological_filter (chronological : Chronological now calls) (keep : TimedCall → Bool) :
    Chronological now (calls.filter keep) := by
  have sorted := isChain_iff_pairwise.mp chronological
  apply isChain_iff_pairwise.mpr
  exact sorted.sublist ((filter_sublist.map _).cons_cons now)

end Loads

section Attempts

variable {config : Config} {now since : Moment} {limiter : Limiter} {loads : Loads} {ip : IP}

def beats (ip : IP) (calls : List TimedCall) : List (Moment × Beat) :=
  calls.filterMap fun c => (ipBeat ip c.call).map fun b => (c.now, b)

theorem beats_cons (c : TimedCall) (rest : List TimedCall) :
    beats ip (c :: rest) = ((ipBeat ip c.call).map fun b => (c.now, b)).toList ++ beats ip rest := by
  unfold beats
  cases seen : ipBeat ip c.call <;> simp [seen]

theorem failsNext_eq (calls : List TimedCall) : failsNext ip calls = hitNext (beats ip calls) := by
  induction calls with
  | nil => rfl
  | cons c rest ih =>
    obtain ⟨now, call⟩ := c
    rw [beats_cons]
    cases call with
    | sweepOnce => exact ih
    | _ ip' user =>
      by_cases same : ip' = ip <;> simp [failsNext, ipBeat, hitNext, same, ih]

variable {calls : List TimedCall}

theorem ordered_beats (chronological : Chronological now calls) : Ordered now (beats ip calls) := by
  have sorted := isChain_iff_pairwise.mp chronological
  apply isChain_iff_pairwise.mpr
  refine sorted.sublist (.cons_cons now ?_)
  clear sorted chronological
  induction calls with
  | nil => exact .slnil
  | cons c rest ih =>
    rw [beats_cons]
    cases ipBeat ip c.call with
    | none => exact ih.cons _
    | some b => exact ih.cons_cons _

theorem success_of_reset (reset : (now, Beat.reset) ∈ beats ip calls) :
    ∃ user, ⟨now, .markSuccess ip user⟩ ∈ calls := by
  obtain ⟨⟨moment, call⟩, member, seen⟩ := mem_filterMap.mp reset
  cases call with
  | markSuccess ip' user =>
    by_cases same : ip' = ip
    · simp only [ipBeat, same, if_true, map_some, some.injEq, Prod.mk.injEq,
        and_true] at seen
      subst seen same
      exact ⟨user, member⟩
    · simp [ipBeat, same] at seen
  | sweepOnce => cases seen
  | _ ip' user => by_cases same : ip' = ip <;> simp [ipBeat] at seen

theorem level_lt_of_passes {c : TimedCall} (models : Models config c.now since limiter loads)
    (burst : 1 ≤ config.burst) (passed : passes ip limiter c = true) :
    ipBeat ip c.call = some .probe ∧ (loads.ip ip).level config.rate c.now < config.burst := by
  obtain ⟨now, call⟩ := c
  cases call with
  | checkDetailed ip' user =>
    simp only [passes, Bool.and_eq_true, decide_eq_true_eq] at passed
    obtain ⟨rfl, allowed⟩ := passed
    rw [models.checkDetailed burst ip' user, throttle] at allowed
    refine ⟨by simp [ipBeat], ?_⟩
    split at allowed
    · cases allowed
    · rename_i room
      exact not_le.mp room
  | _ => cases passed

theorem Models.failedAttempts_le (models : Models config now since limiter loads)
    (burst : 1 ≤ config.burst) (chronological : Chronological now calls)
    (inTime : SweptInTime config.sweepInterval since calls) (first last : Moment) :
    failedAttempts ip first last limiter calls ≤
      admitted config.rate (config.burst : ℚ) first last (loads.ip ip) (beats ip calls) := by
  induction calls generalizing now since limiter loads with
  | nil => exact le_rfl
  | cons c rest ih =>
    obtain ⟨order, later⟩ := chronological_cons.mp chronological
    obtain ⟨onTime, inTime'⟩ := sweptInTime_cons.mp inTime
    have models' := models.mono order
    have rest_le := ih (models'.after burst onTime) later inTime'
    rw [failedAttempts, failsNext_eq, beats_cons]
    cases seen : ipBeat ip c.call with
    | none =>
      rw [if_neg fun counted => by
        have probed := (level_lt_of_passes models' burst counted.1).1
        rw [seen] at probed
        cases probed]
      simpa [Loads.after, seen, tick] using rest_le
    | some b =>
      simp only [Loads.after, seen] at rest_le
      refine Nat.add_le_add ?_ rest_le
      split
      · rename_i counted
        obtain ⟨passed, started, inside, followed⟩ := counted
        obtain ⟨probed, room⟩ := level_lt_of_passes models' burst passed
        rw [seen] at probed
        rw [if_pos ⟨some.inj probed, started, inside, room, followed⟩]
      · exact Nat.zero_le _

end Attempts

theorem models_new (config : Config) (start : Moment) :
    Models (newLimiter config).config start start (newLimiter config)
      ⟨fun _ => ⟨0, start⟩, fun _ => ⟨0, start⟩⟩ := by
  have empty : Stands (newLimiter config).config start start none ⟨0, start⟩ :=
    ⟨by simp, by simp, le_rfl, (Counter.level_self le_rfl).symm⟩
  exact ⟨rfl, le_rfl, fun _ => empty, fun _ => empty⟩

/-- With sweeps in time no check can tell that there are any, and of one address in a span of time
no more attempts fail past the check than the burst, one more, and what the refill makes room for. -/
theorem failed_attempts_bounded (config : Config) (burst : 1 ≤ config.burst)
    (refill : 0 ≤ config.refillPerMinute) (start : Moment) (calls : List TimedCall)
    (chronological : Chronological start calls)
    (inTime : SweptInTime config.sweepInterval start calls) :
    verdicts (newLimiter config) calls =
        verdicts (newLimiter config) (calls.filter fun c => c.call ≠ .sweepOnce) ∧
      ∀ ip first last, first ≤ last →
        (∀ c ∈ calls, ∀ user, c.call = .markSuccess ip user → ¬(first ≤ c.now ∧ c.now ≤ last)) →
        (failedAttempts ip first last (newLimiter config) calls : ℚ) ≤
          config.burst + 1 + config.refillPerMinute / 60 * (last - first) := by
  have sameBurst : (newLimiter config).config.burst = config.burst := if_neg (by omega)
  have sameRefill : (newLimiter config).config.refillPerMinute = config.refillPerMinute :=
    if_neg (not_lt.mpr refill)
  have burst' : 1 ≤ (newLimiter config).config.burst := by rwa [sameBurst]
  have models := models_new config start
  constructor
  · rw [models.verdicts burst' chronological inTime,
      models.verdicts burst' (chronological_filter chronological _) (sweptInTime_withoutSweeps _ _ _),
      Loads.verdicts_withoutSweeps]
  · intro ip first last span unreset
    have rate : (newLimiter config).config.rate = config.refillPerMinute / 60 := by
      rw [Config.rate, sameRefill]
      split
      · rename_i none
        rw [le_antisymm none refill, zero_div]
      · rfl
    have among : failedAttempts ip first last (newLimiter config) calls ≤
        admitted (newLimiter config).config.rate ((newLimiter config).config.burst : ℚ) first last
          ⟨0, start⟩ (beats ip calls) :=
      models.failedAttempts_le burst' chronological inTime first last
    have unreset' : ∀ now, (now, .reset) ∈ beats ip calls → ¬(first ≤ now ∧ now ≤ last) := by
      intro now member
      obtain ⟨user, call⟩ := success_of_reset member
      exact unreset ⟨now, _⟩ call user rfl
    have positive : (0 : ℚ) ≤ config.burst + 1 := by exact_mod_cast by omega
    rw [sameBurst, rate] at among
    calc (failedAttempts ip first last (newLimiter config) calls : ℚ)
        ≤ admitted (config.refillPerMinute / 60) (config.burst : ℚ) first last ⟨0, start⟩
            (beats ip calls) := by exact_mod_cast among
      _ ≤ config.burst + 1 + config.refillPerMinute / 60 * (last - first) :=
          admitted_le (div_nonneg refill (by norm_num)) (ordered_beats chronological) span
            ⟨le_rfl, positive⟩ unreset'

def sweptHistory : List TimedCall :=
  [⟨0, .checkDetailed "a" ""⟩, ⟨1, .markFailure "a" ""⟩, ⟨300, .sweepOnce⟩, ⟨301, .checkDetailed "a" ""⟩]

theorem sweptHistory_bounded :
    verdicts (newLimiter defaultConfig) sweptHistory =
        verdicts (newLimiter defaultConfig) (sweptHistory.filter fun c => c.call ≠ .sweepOnce) ∧
      (failedAttempts "a" 0 301 (newLimiter defaultConfig) sweptHistory : ℚ) ≤
        10 + 1 + 1 / 60 * (301 - 0) := by
  obtain ⟨same, bounded⟩ := failed_attempts_bounded defaultConfig (by decide) (by decide) 0 sweptHistory
    (by norm_num [Chronological, sweptHistory]) (by norm_num [SweptInTime, sweptHistory, defaultConfig])
  exact ⟨same, bounded "a" 0 301 (by norm_num) (by simp [sweptHistory])⟩

def briskConfig : Config := ⟨2, 0, 1, 1⟩

def lateSweep : List TimedCall :=
  [⟨0, .checkDetailed "a" ""⟩, ⟨0, .markFailure "a" ""⟩, ⟨0, .checkDetailed "a" ""⟩,
    ⟨0, .markFailure "a" ""⟩, ⟨3, .sweepOnce⟩, ⟨3, .checkDetailed "a" ""⟩, ⟨3, .markFailure "a" ""⟩,
    ⟨3, .checkDetailed "a" ""⟩, ⟨3, .markFailure "a" ""⟩]

/-- The first sweep comes after more than two intervals and evicts a bucket with failures in it:
four attempts pass in three seconds, and without the sweep the last of them is refused. -/
theorem late_first_sweep_forgets :
    Chronological 0 lateSweep ∧ (lateSweep.filter fun c => c.call = .sweepOnce).length = 1 ∧
      ¬((failedAttempts "a" 0 3 (newLimiter briskConfig) lateSweep : ℚ) ≤
        briskConfig.burst + 1 + briskConfig.refillPerMinute / 60 * (3 - 0)) ∧
      verdicts (newLimiter briskConfig) lateSweep ≠
        verdicts (newLimiter briskConfig) (lateSweep.filter fun c => c.call ≠ .sweepOnce) := by
  refine ⟨by simp [Chronological, lateSweep], by decide, ?_, ?_⟩
  · have four : failedAttempts "a" 0 3 (newLimiter briskConfig) lateSweep = 4 := by decide +kernel
    rw [four]
    norm_num [briskConfig]
  · decide +kernel

end BucketVcs.Gateway
