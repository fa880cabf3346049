import BucketVcs.Lib.Run
import BucketVcs.Lib.Timeline

/-! The freshness controller of a replica, for one repository: calls that sample the roots of
both buckets, among pushes, replication, outages and restarts. -/

namespace BucketVcs.Replica

open Timeline Option

inductive Mode where
  | strongCurrent
  | boundedStale
  deriving DecidableEq, Repr

structure ControllerConfig where
  mode : Mode
  lagBudget : ℕ
  checkInterval : ℕ

/-- `repoState`; a time that is not set is zero in the source. The flag for the audit of
transitions is left out. -/
structure RepoState where
  regionalVer : ℕ
  canonicalVer : ℕ
  lastCheck : Option ℕ
  lastGoodCheck : Option ℕ
  laggedSince : Option ℕ
  deriving DecidableEq, Repr

def RepoState.zero : RepoState := ⟨0, 0, none, none, none⟩

/-- The reason of an `UnhealthyError`. -/
inductive Unhealthy where
  | cannotDetermine
  | budgetExceeded (lag : ℕ)
  deriving DecidableEq, Repr

section Check

variable (config : ControllerConfig) (st : RepoState) (now : ℕ)

def due : Bool :=
  match st.lastCheck with
  | none => true
  | some last => last + config.checkInterval ≤ now

def refresh (canonical regional : Option ℕ) : RepoState :=
  let st := { st with lastCheck := some now, regionalVer := regional.getD st.regionalVer }
  match canonical with
  | none => st
  | some canonVer =>
    let st := { st with canonicalVer := canonVer, lastGoodCheck := some now }
    match regional with
    | none => st
    | some regVer =>
      if regVer < canonVer then { st with laggedSince := some (st.laggedSince.getD now) }
      else { st with laggedSince := none }

theorem refresh_lag (canonVer : ℕ) (regional : Option ℕ) :
    (regional = none ∧ (refresh st now (some canonVer) regional).laggedSince = st.laggedSince) ∨
      (∃ regVer, regional = some regVer ∧ regVer < canonVer ∧
        (refresh st now (some canonVer) regional).laggedSince = some (st.laggedSince.getD now)) ∨
      ∃ regVer, regional = some regVer ∧ canonVer ≤ regVer ∧
        (refresh st now (some canonVer) regional).laggedSince = none := by
  cases regional with
  | none => exact .inl ⟨rfl, rfl⟩
  | some regVer =>
    right
    by_cases behind : regVer < canonVer
    · exact .inl ⟨regVer, rfl, behind, by simp [refresh, behind]⟩
    · exact .inr ⟨regVer, rfl, not_lt.mp behind, by simp [refresh, behind]⟩

theorem refresh_good (canonVer : ℕ) (regional : Option ℕ) :
    (refresh st now (some canonVer) regional).lastGoodCheck = some now ∧
      (refresh st now (some canonVer) regional).lastCheck = some now := by
  cases regional with
  | none => exact ⟨rfl, rfl⟩
  | some regVer => by_cases behind : regVer < canonVer <;> simp [refresh, behind]

def verdict : Option Unhealthy :=
  match config.mode with
  | .strongCurrent => none
  | .boundedStale =>
    match st.lastGoodCheck with
    | none => some .cannotDetermine
    | some good =>
      if good + config.lagBudget < now then some .cannotDetermine
      else
        match st.laggedSince with
        | none => none
        | some since =>
          if since + config.lagBudget < now then some (.budgetExceeded (now - since)) else none

variable {config st now}

theorem verdict_none (mode : config.mode = .boundedStale) (served : verdict config st now = none) :
    ∃ good, st.lastGoodCheck = some good ∧ now ≤ good + config.lagBudget ∧
      ∀ since, st.laggedSince = some since → now ≤ since + config.lagBudget := by
  unfold verdict at served
  rw [mode] at served
  cases reached : st.lastGoodCheck with
  | none => simp [reached] at served
  | some good =>
    simp only [reached] at served
    split at served
    · cases served
    · refine ⟨good, rfl, by omega, ?_⟩
      intro since lagged
      simp only [lagged] at served
      split at served
      · cases served
      · omega

theorem verdict_eq_none {good : ℕ} (reached : st.lastGoodCheck = some good)
    (recent : now ≤ good + config.lagBudget)
    (within : ∀ since, st.laggedSince = some since → now ≤ since + config.lagBudget) :
    verdict config st now = none := by
  unfold verdict
  cases config.mode with
  | strongCurrent => rfl
  | boundedStale =>
    cases lagged : st.laggedSince with
    | none => simp [reached, not_lt.mpr recent]
    | some since => simp [reached, not_lt.mpr recent, not_lt.mpr (within since lagged)]

end Check

/-- Where a call of `CheckAdvertise` stands, with the time it took at its beginning. -/
inductive Call where
  | idle
  | called (now : ℕ)
  | started (now : ℕ)
  | readCanonical (now : ℕ) (canonical : Option ℕ)
  | readBoth (now : ℕ) (canonical regional : Option ℕ)
  | ready (now : ℕ)
  | answered (now : ℕ) (outcome : Option Unhealthy)
  deriving DecidableEq, Repr

def Call.time : Call → ℕ
  | .idle => 0
  | .called now | .started now | .readCanonical now _ | .readBoth now _ _ | .ready now
  | .answered now _ => now

/-- The canonical root over time, the regional root, the controller and its callers. -/
structure World (T : Type) where
  clock : ℕ
  canonical : Line ℕ
  region : ℕ
  st : RepoState
  calls : T → Call

inductive Act (T : Type) where
  | tick (duration : ℕ)
  | push (version : ℕ)
  | replicate (version : ℕ)
  | restart
  | start (t : T)
  | check (t : T)
  | readCanonical (t : T) (reachable : Bool)
  | readRegional (t : T) (reachable : Bool)
  | apply (t : T)
  | answer (t : T)
  deriving DecidableEq, Repr

namespace World

variable {T : Type} [DecidableEq T] (config : ControllerConfig) (w : World T)

def goto (t : T) (call : Call) : World T := { w with calls := Function.update w.calls t call }

def sampled (reachable : Bool) (version : ℕ) : Option ℕ := if reachable then some version else none

/-- One step. The canonical version grows, and the regional root is one that was canonical. -/
def next : Act T → Option (World T)
  | .tick duration => some { w with clock := w.clock + duration }
  | .push version =>
    if w.canonical.current < version then
      some { w with canonical := w.canonical.replace version w.clock }
    else none
  | .replicate version =>
    if w.canonical.Was version then some { w with region := version } else none
  | .restart => some { w with st := .zero, calls := fun _ => .idle }
  | .start t =>
    match w.calls t with
    | .idle | .answered _ _ => some (w.goto t (.called w.clock))
    | _ => none
  | .check t =>
    match w.calls t with
    | .called now => some (w.goto t (if due config w.st now then .started now else .ready now))
    | _ => none
  | .readCanonical t reachable =>
    match w.calls t with
    | .started now => some (w.goto t (.readCanonical now (sampled reachable w.canonical.current)))
    | _ => none
  | .readRegional t reachable =>
    match w.calls t with
    | .readCanonical now canonical =>
      some (w.goto t (.readBoth now canonical (sampled reachable w.region)))
    | _ => none
  | .apply t =>
    match w.calls t with
    | .readBoth now canonical regional =>
      some (World.goto { w with st := refresh w.st now canonical regional } t (.ready now))
    | _ => none
  | .answer t =>
    match w.calls t with
    | .ready now => some (w.goto t (.answered now (verdict config w.st now)))
    | _ => none

variable {config} {w} {w' : World T} {t : T}

theorem next_start (moved : w.next config (.start t) = some w') :
    w' = w.goto t (.called w.clock) := by
  cases phase : w.calls t with
  | idle | answered _ _ => simpa only [next, phase, some.injEq, eq_comm] using moved
  | _ => simp [next, phase] at moved

theorem next_check (moved : w.next config (.check t) = some w') :
    ∃ now, w.calls t = .called now ∧
      w' = w.goto t (if due config w.st now then .started now else .ready now) := by
  cases phase : w.calls t with
  | called now =>
    simp only [next, phase, some.injEq] at moved
    exact ⟨now, rfl, moved.symm⟩
  | _ => simp [next, phase] at moved

theorem next_readCanonical {reachable : Bool}
    (moved : w.next config (.readCanonical t reachable) = some w') :
    ∃ now, w.calls t = .started now ∧
      w' = w.goto t (.readCanonical now (sampled reachable w.canonical.current)) := by
  cases phase : w.calls t with
  | started now =>
    simp only [next, phase, some.injEq] at moved
    exact ⟨now, rfl, moved.symm⟩
  | _ => simp [next, phase] at moved

theorem next_readRegional {reachable : Bool}
    (moved : w.next config (.readRegional t reachable) = some w') :
    ∃ now canonical, w.calls t = .readCanonical now canonical ∧
      w' = w.goto t (.readBoth now canonical (sampled reachable w.region)) := by
  cases phase : w.calls t with
  | readCanonical now canonical =>
    simp only [next, phase, some.injEq] at moved
    exact ⟨now, canonical, rfl, moved.symm⟩
  | _ => simp [next, phase] at moved

theorem next_apply (moved : w.next config (.apply t) = some w') :
    ∃ now canonical regional, w.calls t = .readBoth now canonical regional ∧
      w' = World.goto { w with st := refresh w.st now canonical regional } t (.ready now) := by
  cases phase : w.calls t with
  | readBoth now canonical regional =>
    simp only [next, phase, some.injEq] at moved
    exact ⟨now, canonical, regional, rfl, moved.symm⟩
  | _ => simp [next, phase] at moved

theorem next_answer (moved : w.next config (.answer t) = some w') :
    ∃ now, w.calls t = .ready now ∧ w' = w.goto t (.answered now (verdict config w.st now)) := by
  cases phase : w.calls t with
  | ready now =>
    simp only [next, phase, some.injEq] at moved
    exact ⟨now, rfl, moved.symm⟩
  | _ => simp [next, phase] at moved

end World

def Step {T : Type} [DecidableEq T] (config : ControllerConfig) (w : World T) (act : Act T)
    (w' : World T) : Prop := w.next config act = some w'

/-! How far the answers of the bounded-stale gate follow the lag that the region really has. -/

open Transition

variable {T : Type}

/-- The versions before the first call, with a controller that has seen nothing. -/
structure Initial (w : World T) : Prop where
  growing : w.canonical.Growing w.clock
  known : w.canonical.Was w.region
  fresh : w.st = .zero
  idle : ∀ t, w.calls t = .idle

/-- What holds in every state. -/
structure Timed (w : World T) : Prop where
  growing : w.canonical.Growing w.clock
  known : w.canonical.Was w.region
  begun : ∀ t, (w.calls t).time ≤ w.clock

section Later

/-- `w'` is `w` after some pushes and replications: no version was taken back. -/
structure Later (w w' : World T) : Prop where
  clock : w.clock ≤ w'.clock
  kept : ∀ version instant, instant ≤ w.clock → w.canonical.WasSince version instant →
    w'.canonical.WasSince version instant
  region : w.region ≤ w'.region

variable {w w' : World T}

theorem Later.of_same (clock : w'.clock = w.clock) (canonical : w'.canonical = w.canonical)
    (region : w'.region = w.region) : Later w w' :=
  ⟨clock.ge, fun _ _ _ was => canonical ▸ was, region.ge⟩

theorem Later.wasSince_region (later : Later w w') (timed : Timed w') {instant : ℕ}
    (le : instant ≤ w.clock) (was : w.canonical.WasSince w.region instant) :
    w'.canonical.WasSince w'.region instant :=
  (later.kept _ _ le was).larger timed.growing timed.known later.region

end Later

variable [DecidableEq T] {config : ControllerConfig} {w w' : World T} {act : Act T}

theorem forall_goto {P : Call → Prop} (others : ∀ t, P (w.calls t)) (t : T) {call : Call}
    (here : P call) (u : T) : P ((w.goto t call).calls u) := by
  by_cases same : u = t
  · subst same
    simpa [World.goto] using here
  · simpa [World.goto, same] using others u

theorem timed_goto (timed : Timed w) (t : T) {call : Call} (begun : call.time ≤ w.clock) :
    Timed (w.goto t call) :=
  ⟨timed.growing, timed.known, forall_goto (P := (Call.time · ≤ w.clock)) timed.begun t begun⟩

theorem timed_step (timed : Timed w) (moved : Step config w act w') : Timed w' := by
  cases act with
  | tick duration =>
    cases moved
    have le := Nat.le_add_right w.clock duration
    exact ⟨timed.growing.mono le, timed.known, fun t => le_trans (timed.begun t) le⟩
  | push version =>
    obtain ⟨larger, after⟩ := ite_none_right_eq_some.mp moved
    cases after
    exact ⟨timed.growing.replace larger, timed.known.replace _ _, timed.begun⟩
  | replicate version =>
    obtain ⟨was, after⟩ := ite_none_right_eq_some.mp moved
    cases after
    exact ⟨timed.growing, was, timed.begun⟩
  | restart =>
    cases moved
    exact ⟨timed.growing, timed.known, fun _ => Nat.zero_le _⟩
  | start t =>
    rw [World.next_start moved]
    exact timed_goto timed t le_rfl
  | check t =>
    obtain ⟨now, here, rfl⟩ := World.next_check moved
    have begun := timed.begun t
    rw [here] at begun
    apply timed_goto timed
    split <;> exact begun
  | readCanonical t reachable =>
    obtain ⟨now, here, rfl⟩ := World.next_readCanonical moved
    have begun := timed.begun t
    rw [here] at begun
    exact timed_goto timed t begun
  | readRegional t reachable =>
    obtain ⟨now, canonical, here, rfl⟩ := World.next_readRegional moved
    have begun := timed.begun t
    rw [here] at begun
    exact timed_goto timed t begun
  | apply t =>
    obtain ⟨now, canonical, regional, here, rfl⟩ := World.next_apply moved
    have begun := timed.begun t
    rw [here] at begun
    have moved : Timed { w with st := refresh w.st now canonical regional } :=
      ⟨timed.growing, timed.known, timed.begun⟩
    exact timed_goto moved t begun
  | answer t =>
    obtain ⟨now, here, rfl⟩ := World.next_answer moved
    have begun := timed.begun t
    rw [here] at begun
    exact timed_goto timed t begun

section Staleness

/-- The region does not go back, and a lag is sampled within an interval of its beginning: the
sample that anchors it, or that finds the region unreadable with no lag anchored, is taken
while the regional root was canonical within the interval. -/
def LagSeenInTime (config : ControllerConfig) (e : Event (World T) (Act T)) : Prop :=
  match e.label with
  | .replicate version => e.pre.region ≤ version
  | .apply t =>
    match e.pre.calls t with
    | .readBoth now (some canonVer) regional =>
      e.pre.st.laggedSince = none → (∀ regVer ∈ regional, regVer < canonVer) →
        e.pre.canonical.WasSince e.pre.region (now - config.checkInterval)
    | _ => True
  | _ => True

instance (config : ControllerConfig) (e : Event (World T) (Act T)) :
    Decidable (LagSeenInTime config e) := by
  unfold LagSeenInTime
  split
  · infer_instance
  · split <;> infer_instance
  · infer_instance

/-- The versions that a call has read are not older than the call. -/
def CallSound (w : World T) : Call → Prop
  | .readCanonical now canonical => ∀ canonVer, canonical = some canonVer →
      w.canonical.WasSince canonVer now
  | .readBoth now canonical regional =>
    (∀ canonVer, canonical = some canonVer → w.canonical.WasSince canonVer now) ∧
      ∀ regVer, regional = some regVer → regVer ≤ w.region
  | _ => True

/-- What the record says about the regional root. -/
structure RecordSound (config : ControllerConfig) (w : World T) (st : RepoState) : Prop where
  caught : ∀ good, st.lastGoodCheck = some good → st.laggedSince = none →
    good ≤ w.clock ∧ w.canonical.WasSince w.region (good - config.checkInterval)
  lagging : ∀ since, st.laggedSince = some since →
    since ≤ w.clock ∧ w.canonical.WasSince w.region (since - config.checkInterval)

structure Sound (config : ControllerConfig) (w : World T) : Prop extends Timed w where
  record : RecordSound config w w.st
  calls : ∀ t, CallSound w (w.calls t)

omit [DecidableEq T] in
theorem CallSound.later {call : Call} (sound : CallSound w call) (begun : call.time ≤ w.clock)
    (later : Later w w') : CallSound w' call := by
  cases call with
  | readCanonical now canonical =>
    exact fun canonVer read => later.kept _ _ begun (sound canonVer read)
  | readBoth now canonical regional =>
    exact ⟨fun canonVer read => later.kept _ _ begun (sound.1 canonVer read),
      fun regVer read => le_trans (sound.2 regVer read) later.region⟩
  | _ => trivial

omit [DecidableEq T] in
theorem RecordSound.later {st : RepoState} (sound : RecordSound config w st) (later : Later w w')
    (timed : Timed w') : RecordSound config w' st := by
  constructor
  · intro good reached unlagged
    obtain ⟨le, was⟩ := sound.caught good reached unlagged
    exact ⟨le_trans le later.clock,
      later.wasSince_region timed (le_trans (Nat.sub_le _ _) le) was⟩
  · intro since lagged
    obtain ⟨le, was⟩ := sound.lagging since lagged
    exact ⟨le_trans le later.clock,
      later.wasSince_region timed (le_trans (Nat.sub_le _ _) le) was⟩

omit [DecidableEq T] in
theorem Sound.later (sound : Sound config w) (later : Later w w') (timed : Timed w')
    (record : w'.st = w.st) (calls : w'.calls = w.calls) : Sound config w' := by
  refine ⟨timed, record ▸ sound.record.later later timed, ?_⟩
  intro t
  rw [calls]
  exact (sound.calls t).later (sound.begun t) later

theorem Sound.goto (sound : Sound config w) {t : T} {call : Call} (timed : Timed (w.goto t call))
    (here : CallSound w call) : Sound config (w.goto t call) :=
  ⟨timed, sound.record.later (.of_same rfl rfl rfl) timed,
    forall_goto (P := CallSound w) sound.calls t here⟩

omit [DecidableEq T] in
theorem record_refresh (sound : Sound config w) {t : T} {now : ℕ} {canonical regional : Option ℕ}
    (here : w.calls t = .readBoth now canonical regional)
    (inTime : LagSeenInTime config ⟨w, .apply t, w'⟩) :
    RecordSound config w (refresh w.st now canonical regional) := by
  cases canonical with
  | none => exact ⟨sound.record.caught, sound.record.lagging⟩
  | some canonVer =>
    have reads := sound.calls t
    have begun := sound.begun t
    simp only [LagSeenInTime, here] at inTime
    rw [here] at reads begun
    have good := (refresh_good w.st now canonVer regional).1
    rcases refresh_lag w.st now canonVer regional with
      ⟨unread, kept⟩ | ⟨regVer, read, behind, anchored⟩ | ⟨regVer, read, caughtUp, cleared⟩
    · refine ⟨fun instant reached unlagged => ?_, fun since lagged => ?_⟩
      · cases good.symm.trans reached
        refine ⟨begun, inTime (kept ▸ unlagged) ?_⟩
        intro regVer read
        cases unread.symm.trans read
      · exact sound.record.lagging since (kept ▸ lagged)
    · refine ⟨fun instant _ unlagged => ?_, fun since lagged => ?_⟩
      · cases anchored.symm.trans unlagged
      · have anchor := some.inj (anchored.symm.trans lagged)
        cases before : w.st.laggedSince with
        | some earlier =>
          rw [before] at anchor
          exact sound.record.lagging since (before.trans (congrArg some anchor))
        | none =>
          rw [before] at anchor
          subst anchor
          refine ⟨begun, inTime before ?_⟩
          intro regVer' again
          cases read.symm.trans again
          exact behind
    · refine ⟨fun instant reached _ => ?_, fun since lagged => ?_⟩
      · cases good.symm.trans reached
        have le := le_trans caughtUp (reads.2 regVer read)
        have was := (reads.1 canonVer rfl).larger sound.growing sound.known le
        exact ⟨begun, was.mono (Nat.sub_le _ _)⟩
      · cases cleared.symm.trans lagged

theorem sound_step (sound : Sound config w) (inTime : LagSeenInTime config ⟨w, act, w'⟩)
    (moved : Step config w act w') : Sound config w' := by
  have timed := timed_step sound.toTimed moved
  cases act with
  | tick duration =>
    cases moved
    exact sound.later ⟨Nat.le_add_right _ _, fun _ _ _ was => was, le_rfl⟩ timed rfl rfl
  | push version =>
    obtain ⟨larger, after⟩ := ite_none_right_eq_some.mp moved
    cases after
    exact sound.later ⟨le_rfl, fun _ _ le was => was.replace version le, le_rfl⟩
      timed rfl rfl
  | replicate version =>
    obtain ⟨_, after⟩ := ite_none_right_eq_some.mp moved
    cases after
    exact sound.later ⟨le_rfl, fun _ _ _ was => was, inTime⟩ timed rfl rfl
  | restart =>
    cases moved
    exact ⟨timed, ⟨by simp [RepoState.zero], by simp [RepoState.zero]⟩, fun _ => trivial⟩
  | start t =>
    rw [World.next_start moved] at timed ⊢
    exact sound.goto timed trivial
  | check t =>
    obtain ⟨now, here, rfl⟩ := World.next_check moved
    apply sound.goto timed
    split <;> trivial
  | readCanonical t reachable =>
    obtain ⟨now, here, rfl⟩ := World.next_readCanonical moved
    refine sound.goto timed ?_
    intro canonVer read
    cases reachable with
    | true => exact .inl (some.inj read).symm
    | false => cases read
  | readRegional t reachable =>
    obtain ⟨now, canonical, here, rfl⟩ := World.next_readRegional moved
    have reads := sound.calls t
    rw [here] at reads
    refine sound.goto timed ⟨reads, ?_⟩
    intro regVer read
    cases reachable with
    | true => exact (some.inj read).ge
    | false => cases read
  | apply t =>
    obtain ⟨now, canonical, regional, here, rfl⟩ := World.next_apply moved
    have record := record_refresh sound here inTime
    have moved : Sound config { w with st := refresh w.st now canonical regional } :=
      ⟨⟨sound.growing, sound.known, sound.begun⟩, ⟨record.caught, record.lagging⟩, sound.calls⟩
    exact moved.goto timed trivial
  | answer t =>
    obtain ⟨now, here, rfl⟩ := World.next_answer moved
    exact sound.goto timed trivial

/-- A call that is served at `now` leaves the client with a root that was canonical within the
budget and one interval. -/
def FollowsLag (config : ControllerConfig) (e : Event (World T) (Act T)) : Prop :=
  ∀ t now, e.label = .answer t → e.post.calls t = .answered now none →
    ∃ moment, now - (config.lagBudget + config.checkInterval) ≤ moment ∧
      moment ≤ e.post.clock ∧ e.post.canonical.At moment e.post.region

theorem followsLag_answer (mode : config.mode = .boundedStale) (sound : Sound config w)
    (moved : Step config w act w') : FollowsLag config ⟨w, act, w'⟩ := by
  rintro t now rfl answered
  obtain ⟨time, here, rfl⟩ := World.next_answer moved
  have begun := sound.begun t
  rw [here] at begun
  simp only [World.goto, Function.update_self, Call.answered.injEq] at answered
  obtain ⟨rfl, served⟩ := answered
  obtain ⟨good, reached, recent, within⟩ := verdict_none mode served
  have bound : time - (config.lagBudget + config.checkInterval) ≤ w.clock :=
    le_trans (Nat.sub_le _ _) begun
  cases lagged : w.st.laggedSince with
  | none =>
    obtain ⟨_, was⟩ := sound.record.caught good reached lagged
    exact (was.mono (by omega)).exists_at sound.growing bound
  | some since =>
    obtain ⟨_, was⟩ := sound.record.lagging since lagged
    have le := within since lagged
    exact (was.mono (by omega)).exists_at sound.growing bound

end Staleness

section Availability

def Fresh (config : ControllerConfig) (w : World T) : Prop :=
  w.canonical.WasSince w.region (w.clock - config.lagBudget)

/-- The region has been behind ever since: its root was not canonical at any moment after. -/
def LagLasts (w : World T) (since : ℕ) : Prop :=
  ∀ moment ≤ w.clock, w.canonical.At moment w.region → moment ≤ since

/-- The canonical bucket can be read, samples are applied in the order of their calls, and a
call is answered with the region fresh and with no lag anchored that has ended since. -/
def KeepsUp (config : ControllerConfig) (e : Event (World T) (Act T)) : Prop :=
  match e.label with
  | .readCanonical _ reachable => reachable = true
  | .apply t => ∀ last ∈ e.pre.st.lastCheck, last ≤ (e.pre.calls t).time
  | .answer _ => Fresh config e.pre ∧ ∀ since ∈ e.pre.st.laggedSince, LagLasts e.pre since
  | _ => True

instance (config : ControllerConfig) (w : World T) : Decidable (Fresh config w) :=
  inferInstanceAs (Decidable (w.canonical.WasSince w.region (w.clock - config.lagBudget)))

instance (w : World T) (since : ℕ) : Decidable (LagLasts w since) :=
  inferInstanceAs (Decidable (∀ moment ≤ w.clock, w.canonical.At moment w.region → moment ≤ since))

instance (config : ControllerConfig) (e : Event (World T) (Act T)) :
    Decidable (KeepsUp config e) := by
  unfold KeepsUp
  split <;> infer_instance

def CallFed (config : ControllerConfig) (st : RepoState) : Call → Prop
  | .readCanonical _ canonical | .readBoth _ canonical _ => canonical ≠ none
  | .ready now => ∃ good, st.lastGoodCheck = some good ∧ now ≤ good + config.lagBudget
  | _ => True

structure Fed (config : ControllerConfig) (w : World T) : Prop extends Timed w where
  good : w.st.lastGoodCheck = w.st.lastCheck
  calls : ∀ t, CallFed config w.st (w.calls t)

theorem CallFed.later {st : RepoState} {call : Call} (fed : CallFed config st call) {st' : RepoState}
    {now : ℕ} (sampled : st'.lastGoodCheck = some now)
    (inOrder : ∀ good, st.lastGoodCheck = some good → good ≤ now) : CallFed config st' call := by
  cases call with
  | ready time =>
    obtain ⟨good, reached, recent⟩ := fed
    have le := inOrder good reached
    exact ⟨now, sampled, by omega⟩
  | readCanonical _ _ => exact fed
  | readBoth _ _ _ => exact fed
  | _ => trivial

theorem Fed.goto (fed : Fed config w) {t : T} {call : Call} (timed : Timed (w.goto t call))
    (here : CallFed config w.st call) : Fed config (w.goto t call) :=
  ⟨timed, fed.good, forall_goto fed.calls t here⟩

theorem callFed_check (interval : config.checkInterval ≤ config.lagBudget)
    {st : RepoState} (good : st.lastGoodCheck = st.lastCheck) (now : ℕ) :
    CallFed config st (if due config st now then .started now else .ready now) := by
  cases checked : st.lastCheck with
  | none => simp [due, checked, CallFed]
  | some last =>
    by_cases old : last + config.checkInterval ≤ now
    · simp [due, checked, old, CallFed]
    · simp only [due, checked, old]
      exact ⟨last, good.trans checked, by omega⟩

theorem fed_step (interval : config.checkInterval ≤ config.lagBudget) (fed : Fed config w)
    (keeps : KeepsUp config ⟨w, act, w'⟩) (moved : Step config w act w') : Fed config w' := by
  have timed := timed_step fed.toTimed moved
  cases act with
  | tick duration =>
    cases moved
    exact ⟨timed, fed.good, fed.calls⟩
  | push version | replicate version =>
    obtain ⟨_, after⟩ := ite_none_right_eq_some.mp moved
    cases after
    exact ⟨timed, fed.good, fed.calls⟩
  | restart =>
    cases moved
    exact ⟨timed, rfl, fun _ => trivial⟩
  | start t =>
    rw [World.next_start moved] at timed ⊢
    exact fed.goto timed trivial
  | check t =>
    obtain ⟨now, here, rfl⟩ := World.next_check moved
    exact fed.goto timed (callFed_check interval fed.good now)
  | readCanonical t reachable =>
    obtain ⟨now, here, rfl⟩ := World.next_readCanonical moved
    obtain rfl : reachable = true := keeps
    exact fed.goto timed (some_ne_none _)
  | readRegional t reachable =>
    obtain ⟨now, canonical, here, rfl⟩ := World.next_readRegional moved
    have read := fed.calls t
    rw [here] at read
    exact fed.goto timed read
  | apply t =>
    obtain ⟨now, canonical, regional, here, rfl⟩ := World.next_apply moved
    have read := fed.calls t
    rw [here] at read
    obtain ⟨canonVer, rfl⟩ := ne_none_iff_exists'.mp read
    obtain ⟨good, checked⟩ := refresh_good w.st now canonVer regional
    have inOrder (last : ℕ) (reached : w.st.lastGoodCheck = some last) : last ≤ now := by
      have le := keeps last (fed.good ▸ reached)
      rwa [here] at le
    have moved : Fed config { w with st := refresh w.st now (some canonVer) regional } :=
      ⟨⟨fed.growing, fed.known, fed.begun⟩, good.trans checked.symm,
        fun u => (fed.calls u).later good inOrder⟩
    exact moved.goto timed ⟨now, good, Nat.le_add_right _ _⟩
  | answer t =>
    obtain ⟨now, here, rfl⟩ := World.next_answer moved
    exact fed.goto timed trivial

def Served (e : Event (World T) (Act T)) : Prop :=
  ∀ t now outcome, e.label = .answer t → e.post.calls t = .answered now outcome → outcome = none

theorem served_answer (fed : Fed config w) (keeps : KeepsUp config ⟨w, act, w'⟩)
    (moved : Step config w act w') : Served ⟨w, act, w'⟩ := by
  rintro t now outcome rfl answered
  obtain ⟨time, here, rfl⟩ := World.next_answer moved
  have begun := fed.begun t
  have sampled := fed.calls t
  rw [here] at begun sampled
  simp only [World.goto, Function.update_self, Call.answered.injEq] at answered
  obtain ⟨rfl, rfl⟩ := answered
  obtain ⟨good, reached, recent⟩ := sampled
  refine verdict_eq_none reached recent ?_
  intro since lagged
  -- a fresh region that has been behind since the anchor puts the anchor within the budget
  obtain ⟨fresh, lasting⟩ : Fresh config w ∧
    ∀ since ∈ w.st.laggedSince, LagLasts w since := keeps
  obtain ⟨moment, after, past, was⟩ := fresh.exists_at fed.growing (Nat.sub_le _ _)
  have ended : moment ≤ since := lasting since lagged moment past was
  have begun : time ≤ w.clock := begun
  omega

end Availability

section Runs

variable {start : World T}

omit [DecidableEq T] in
theorem Initial.timed (initial : Initial start) : Timed start :=
  ⟨initial.growing, initial.known, fun t => by simp [initial.idle t, Call.time]⟩

omit [DecidableEq T] in
theorem Initial.sound (initial : Initial start) : Sound config start := by
  refine ⟨initial.timed, ?_, fun t => ?_⟩
  · rw [initial.fresh]
    exact ⟨by simp [RepoState.zero], by simp [RepoState.zero]⟩
  · rw [initial.idle t]
    trivial

omit [DecidableEq T] in
theorem Initial.fed (initial : Initial start) : Fed config start := by
  refine ⟨initial.timed, by rw [initial.fresh]; rfl, fun t => ?_⟩
  rw [initial.idle t]
  trivial

/-- The gate serves no root that is older than the budget and one interval, if every lag is
sampled in time; and it serves every call, if it keeps up with the region. -/
theorem gate_follows_lag (mode : config.mode = .boundedStale) {start : World T}
    (initial : Initial start) {events : List (Event (World T) (Act T))} {s : World T}
    (run : Run (Step config) start events s) :
    ((∀ e ∈ events, LagSeenInTime config e) → ∀ e ∈ events, FollowsLag config e) ∧
      (config.checkInterval ≤ config.lagBudget → (∀ e ∈ events, KeepsUp config e) →
        ∀ e ∈ events, Served e) := by
  constructor
  · intro inTime
    refine run.every_event (I := Sound config) initial.sound ?_ ?_ inTime
    · exact fun w act w' sound seen moved => sound_step sound seen moved
    · exact fun w act w' sound _ moved => followsLag_answer mode sound moved
  · intro interval keeps
    refine run.every_event (I := Fed config) initial.fed ?_ ?_ keeps
    · exact fun w act w' fed kept moved => fed_step interval fed kept moved
    · exact fun w act w' fed kept moved => served_answer fed kept moved

def shortBudget : ControllerConfig := ⟨.boundedStale, 30, 15⟩

def replicated : World Unit := ⟨0, ⟨1, 0, []⟩, 1, .zero, fun _ => .idle⟩

theorem initial_replicated : Initial replicated :=
  ⟨⟨le_rfl, by simp [replicated], List.Pairwise.nil⟩, .inl rfl, rfl, fun _ => rfl⟩

def checkAdvertise : List (Act Unit) :=
  [.start (), .check (), .readCanonical () true, .readRegional () true, .apply (), .answer ()]

def quickFetch : List (Act Unit) := [.tick 10, .push 2, .tick 5] ++ checkAdvertise

/-- A fetch five seconds after a push is served. -/
theorem quick_fetch_served :
    ∃ events s, Run (Step shortBudget) replicated events s ∧ s.calls () = .answered 15 none ∧
      (∀ e ∈ events, FollowsLag shortBudget e) ∧ ∀ e ∈ events, Served e := by
  obtain ⟨events, s, run, inTime, keeps, served⟩ :=
    Run.exists_of_play (World.next shortBudget) replicated quickFetch
      (P := fun events s => (∀ e ∈ events, LagSeenInTime shortBudget e) ∧
        (∀ e ∈ events, KeepsUp shortBudget e) ∧ s.calls () = .answered 15 none)
      (by decide +kernel)
  have follows := gate_follows_lag rfl initial_replicated run
  exact ⟨events, s, run, served, follows.1 inTime, follows.2 (by decide) keeps⟩

def lateFetch : List (Act Unit) := [.tick 1, .push 2, .tick 999] ++ checkAdvertise

def busyPushes : List (Act Unit) :=
  [.tick 10, .push 2] ++ checkAdvertise ++ [.tick 10, .replicate 2, .tick 4, .push 3, .tick 1] ++
    checkAdvertise ++ [.tick 9, .replicate 3, .tick 5, .push 4, .tick 2] ++ checkAdvertise

def Readable (e : Event (World T) (Act T)) : Prop :=
  match e.label with
  | .readCanonical _ reachable | .readRegional _ reachable => reachable = true
  | _ => True

instance (e : Event (World T) (Act T)) : Decidable (Readable e) := by
  unfold Readable
  split <;> infer_instance

/-- A region that fell behind long before the first fetch is served; and one that catches up
between the samples is refused, though it was never behind for more than the budget. -/
theorem lag_measured_from_samples :
    (∃ events s, Run (Step shortBudget) replicated events s ∧
        (∀ e ∈ events, Readable e) ∧ ∃ e ∈ events, ¬FollowsLag shortBudget e) ∧
      ∃ events s, Run (Step shortBudget) replicated events s ∧
        (∀ e ∈ events, Readable e ∧ Fresh shortBudget e.post) ∧ ∃ e ∈ events, ¬Served e := by
  constructor
  · obtain ⟨events, s, run, readable, e, member, answer, served, stale⟩ :=
      Run.exists_of_play (World.next shortBudget) replicated lateFetch
        (P := fun events _ => (∀ e ∈ events, Readable e) ∧ ∃ e ∈ events, e.label = .answer () ∧
          e.post.calls () = .answered 1000 none ∧ ¬e.post.canonical.WasSince e.post.region 955)
        (by decide +kernel)
    refine ⟨events, s, run, readable, e, member, ?_⟩
    intro follows
    obtain ⟨moment, after, -, was⟩ := follows () 1000 answer served
    exact stale (was.wasSince after)
  · obtain ⟨events, s, run, fresh, e, member, answer, refused⟩ :=
      Run.exists_of_play (World.next shortBudget) replicated busyPushes
        (P := fun events _ => (∀ e ∈ events, Readable e ∧ Fresh shortBudget e.post) ∧
          ∃ e ∈ events, e.label = .answer () ∧
            e.post.calls () = .answered 41 (some (.budgetExceeded 31)))
        (by decide +kernel)
    refine ⟨events, s, run, fresh, e, member, ?_⟩
    intro served
    cases served () 41 _ answer refused

end Runs

end BucketVcs.Replica
