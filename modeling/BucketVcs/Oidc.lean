import Mathlib.Data.Fintype.Basic
import BucketVcs.Lib.Run

/-! The key cache of the OIDC verifier for one issuer: calls of `Verify` that fetch, install and
refresh its key set, in any order. -/

namespace BucketVcs.Oidc

open Transition Option Function

/-- `fetch` numbers the fetches by their start; the zero time of a first fetch is `none`. -/
structure KeySet (K : Type) where
  keys : K
  fetch : Nat
  lastRefresh : Option Nat
  deriving DecidableEq

inductive Phase (K : Type) where
  | idle
  | missed
  | holding
  | cleared
  | fetching (refresh : Bool) (fetch begun : Nat)
  | answered (refresh : Bool) (ks : KeySet K)
  deriving DecidableEq

/-- A fetch is under way, or cleared to begin, or its answer is not installed yet. -/
def Phase.underWay {K : Type} : Phase K → Bool
  | .cleared => true
  | .fetching .. => true
  | .answered .. => true
  | _ => false

/-- `started` and `failures` are the times at which the refresh fetches began, all of them and
those that failed. -/
structure State (T K : Type) where
  clock : Nat
  cached : Option (KeySet K)
  calls : T → Phase K
  fetches : Nat
  started : List Nat
  failures : List Nat

inductive Action (K : Type) where
  | call
  | undiscovered
  | start
  | fail
  | answer (keys : K)
  | install
  | verified
  | unknownKid

inductive Label (T K : Type) where
  | tick (now : Nat)
  | act (t : T) (a : Action K)

variable {T K : Type} [DecidableEq T] (minRefreshInterval : Nat)

def State.put (s : State T K) (t : T) (phase : Phase K) : State T K :=
  { s with calls := Function.update s.calls t phase }

def State.throttled (s : State T K) : Bool :=
  match s.cached.bind (·.lastRefresh) with
  | some last => s.clock - last < minRefreshInterval
  | none => false

/-- One step of a call: `getKeyset` up to `start`, then `fetchJWKS`, then the second critical
section; `unknownKid` is the first critical section of `refreshKeyset`. -/
def State.act (s : State T K) (t : T) : Action K → Phase K → Option (State T K)
  | .call, .idle => some (s.put t (if s.cached.isSome then .holding else .missed))
  | .undiscovered, .missed => some (s.put t .idle)
  | .start, .missed =>
    some { s.put t (.fetching false s.fetches s.clock) with fetches := s.fetches + 1 }
  | .start, .cleared =>
    some { s.put t (.fetching true s.fetches s.clock) with
      fetches := s.fetches + 1, started := s.clock :: s.started }
  | .fail, .fetching refresh _ begun =>
    some { s.put t .idle with failures := if refresh then begun :: s.failures else s.failures }
  | .answer keys, .fetching refresh fetch _ =>
    some (s.put t (.answered refresh ⟨keys, fetch, if refresh then some s.clock else none⟩))
  | .install, .answered refresh ks =>
    some { s.put t (if refresh then .idle else .holding) with cached := some ks }
  | .verified, .holding => some (s.put t .idle)
  | .unknownKid, .holding =>
    some (s.put t (if s.throttled minRefreshInterval then .idle else .cleared))
  | _, _ => none

def next (s : State T K) : Label T K → Option (State T K)
  | .tick now => if s.clock ≤ now then some { s with clock := now } else none
  | .act t a => s.act minRefreshInterval t a (s.calls t)

def initial : State T K := ⟨0, none, fun _ => .idle, 0, [], []⟩

/-- Any two refresh fetches began at least the interval apart. -/
def Spaced (s : State T K) : Prop :=
  s.started.Pairwise fun later earlier => earlier + minRefreshInterval ≤ later

/-- The cached set is not replaced by the answer to an earlier fetch. -/
def Forward (e : Event (State T K) (Label T K)) : Prop :=
  ∀ old new, e.pre.cached = some old → e.post.cached = some new → old.fetch ≤ new.fetch

def State.quiet (s : State T K) : Prop := ∀ t, (s.calls t).underWay = false

/-- A refresh is cleared, and a first fetch begun, while no fetch is under way; no refresh of
the last interval has failed, and a first fetch begins on an empty cache. -/
def Alone (e : Event (State T K) (Label T K)) : Prop :=
  match e.label with
  | .act _ .unknownKid =>
    e.pre.quiet ∧ ∀ begun ∈ e.pre.failures, begun + minRefreshInterval ≤ e.pre.clock
  | .act t .start => e.pre.calls t = .missed → e.pre.quiet ∧ e.pre.cached = none
  | _ => True

/-- A refresh that began at `begun` failed, or its answer is cached, or `phase` has it. -/
def Accounted (failures : List Nat) (cached : Option (KeySet K)) (phase : Phase K) (begun : Nat) :
    Prop :=
  begun ∈ failures ∨ (∃ ks last, cached = some ks ∧ ks.lastRefresh = some last ∧ begun ≤ last) ∨
    match phase with
    | .fetching true _ mine => begun = mine
    | .answered _ ks => ∃ last, ks.lastRefresh = some last ∧ begun ≤ last
    | _ => False

def Sound (s : State T K) : Phase K → Prop
  | .cleared => ∀ begun ∈ s.started, begun + minRefreshInterval ≤ s.clock
  | .fetching refresh fetch begun => fetch < s.fetches ∧ begun ≤ s.clock ∧
    (∀ ks, s.cached = some ks → refresh = true ∧ ks.fetch ≤ fetch)
  | .answered _ answer => answer.fetch < s.fetches ∧
    ∀ ks, s.cached = some ks → ks.fetch ≤ answer.fetch ∧
      ∃ last, answer.lastRefresh = some last ∧ ∀ begun ∈ s.started, begun ≤ last
  | _ => True

/-- No other call than `busy` has a fetch under way. -/
structure Inv (s : State T K) : Prop where
  spaced : Spaced minRefreshInterval s
  past : ∀ begun ∈ s.started, begun ≤ s.clock
  number : ∀ ks, s.cached = some ks → ks.fetch < s.fetches
  single : ∃ busy : Option T, (∀ u, (s.calls u).underWay = true → busy = some u) ∧
    (∀ begun ∈ s.started, Accounted s.failures s.cached (busy.elim .idle s.calls) begun) ∧
    Sound minRefreshInterval s (busy.elim .idle s.calls)

variable {minRefreshInterval} {s : State T K} {t : T} {phase : Phase K}

theorem Accounted.of_still {failures : List Nat} {cached : Option (KeySet K)} {other : Phase K}
    {begun : Nat} (still : phase.underWay = false) (known : Accounted failures cached phase begun) :
    Accounted failures cached other begun := by
  rcases known with failed | cached | mine
  · exact .inl failed
  · exact .inr (.inl cached)
  · cases phase <;> first | exact mine.elim | cases still

omit [DecidableEq T] in
theorem Inv.busy (inv : Inv minRefreshInterval s) (under : (s.calls t).underWay = true) :
    (∀ u, u ≠ t → (s.calls u).underWay = false) ∧
      (∀ begun ∈ s.started, Accounted s.failures s.cached (s.calls t) begun) ∧
      Sound minRefreshInterval s (s.calls t) := by
  obtain ⟨busy, only, accounted, sound⟩ := inv.single
  obtain rfl := only t under
  refine ⟨fun u other => ?_, accounted, sound⟩
  by_contra also
  exact other (some.inj (only u (Bool.of_not_eq_false also))).symm

omit [DecidableEq T] in
theorem Inv.accounted (inv : Inv minRefreshInterval s) (quiet : s.quiet) :
    ∀ begun ∈ s.started, Accounted s.failures s.cached phase begun := by
  obtain ⟨busy, -, accounted, -⟩ := inv.single
  intro begun member
  refine (accounted begun member).of_still ?_
  cases busy with
  | none => rfl
  | some t => exact quiet t

variable {s' : State T K}

theorem Inv.of_put (calls : s'.calls = update s.calls t phase)
    (others : ∀ u, u ≠ t → (s.calls u).underWay = false) (spaced : Spaced minRefreshInterval s')
    (past : ∀ begun ∈ s'.started, begun ≤ s'.clock)
    (number : ∀ ks, s'.cached = some ks → ks.fetch < s'.fetches)
    (accounted : ∀ begun ∈ s'.started, Accounted s'.failures s'.cached phase begun)
    (sound : Sound minRefreshInterval s' phase) : Inv minRefreshInterval s' := by
  have here : s'.calls t = phase := by rw [calls, update_self]
  refine ⟨spaced, past, number, some t, fun u under => ?_, by rwa [← here] at accounted,
    by rwa [← here] at sound⟩
  by_contra other
  have different : u ≠ t := fun same => other (congrArg some same.symm)
  rw [calls, update_of_ne different, others u different] at under
  cases under

theorem Inv.aside (inv : Inv minRefreshInterval s) (before : (s.calls t).underWay = false)
    (after : phase.underWay = false) : Inv minRefreshInterval (s.put t phase) := by
  obtain ⟨busy, only, accounted, sound⟩ := inv.single
  have only' : ∀ u, ((s.put t phase).calls u).underWay = true → busy = some u := by
    intro u under
    by_cases same : u = t
    · subst same
      simp [State.put, after] at under
    · exact only u (by simpa [State.put, update_of_ne same] using under)
  by_cases mine : busy = some t
  · subst mine
    refine ⟨inv.spaced, inv.past, inv.number, none, ?_,
      fun begun member => (accounted begun member).of_still before, trivial⟩
    intro u under
    cases only' u under
    simp [State.put, after] at under
  · have same : busy.elim .idle (s.put t phase).calls = busy.elim .idle s.calls := by
      cases busy with
      | none => rfl
      | some u => exact update_of_ne (fun same => mine (congrArg some same)) ..
    exact ⟨inv.spaced, inv.past, inv.number, busy, only', same ▸ accounted, same ▸ sound⟩

omit [DecidableEq T] in
theorem not_throttled {last : Nat} {ks : KeySet K} (free : s.throttled minRefreshInterval = false)
    (cached : s.cached = some ks) (stamp : ks.lastRefresh = some last) :
    minRefreshInterval ≤ s.clock - last := by
  simpa [State.throttled, cached, stamp] using free

omit [DecidableEq T] in
theorem underWay_of {busy : Bool} (stands : s.calls t = phase) (under : phase.underWay = busy) :
    (s.calls t).underWay = busy := stands ▸ under

theorem Inv.step {l : Label T K} (inv : Inv minRefreshInterval s)
    (alone : Alone minRefreshInterval ⟨s, l, s'⟩) (taken : next minRefreshInterval s l = some s') :
    Inv minRefreshInterval s' := by
  cases l with
  | tick now =>
    obtain ⟨order, ⟨⟩⟩ := ite_none_right_eq_some.mp taken
    obtain ⟨busy, only, accounted, sound⟩ := inv.single
    refine ⟨inv.spaced, fun begun member => (inv.past begun member).trans order, inv.number, busy,
      only, accounted, ?_⟩
    cases phase : busy.elim .idle s.calls with
    | cleared =>
      rw [phase] at sound
      exact fun begun member => (sound begun member).trans order
    | fetching refresh fetch begun =>
      rw [phase] at sound
      exact ⟨sound.1, sound.2.1.trans order, sound.2.2⟩
    | answered refresh ks =>
      rw [phase] at sound
      exact sound
    | _ => trivial
  | act t a =>
    simp only [next] at taken
    cases a <;> cases stands : s.calls t <;>
      simp only [State.act, stands, some.injEq, reduceCtorEq] at taken <;> subst taken
    case call.idle =>
      refine inv.aside (underWay_of stands rfl) ?_
      split <;> rfl
    case undiscovered.missed => exact inv.aside (underWay_of stands rfl) rfl
    case verified.holding => exact inv.aside (underWay_of stands rfl) rfl
    case start.missed =>
      obtain ⟨quiet, empty⟩ := alone stands
      have none {ks : KeySet K} (cached : s.cached = some ks) : False := by
        rw [empty] at cached
        cases cached
      exact .of_put rfl (fun u _ => quiet u) inv.spaced inv.past (fun ks cached => (none cached).elim)
        (fun begun member => inv.accounted quiet begun member)
        ⟨Nat.lt_succ_self _, le_rfl, fun ks cached => (none cached).elim⟩
    case start.cleared =>
      obtain ⟨others, accounted, ready⟩ := inv.busy (underWay_of stands rfl)
      rw [stands] at accounted ready
      refine .of_put rfl others (List.pairwise_cons.mpr ⟨ready, inv.spaced⟩) ?_
        (fun ks cached => (inv.number ks cached).trans (Nat.lt_succ_self _)) ?_
        ⟨Nat.lt_succ_self _, le_rfl, fun ks cached => ⟨rfl, (inv.number ks cached).le⟩⟩
      · exact List.forall_mem_cons.mpr ⟨le_rfl, inv.past⟩
      · exact List.forall_mem_cons.mpr ⟨.inr (.inr rfl),
          fun begun member => (accounted begun member).imp_right (·.imp_right False.elim)⟩
    case fail.fetching refresh fetch begun =>
      obtain ⟨others, accounted, -⟩ := inv.busy (underWay_of stands rfl)
      rw [stands] at accounted
      refine .of_put rfl others inv.spaced inv.past inv.number (fun mine member => ?_) trivial
      rcases accounted mine member with failed | cached | same
      · exact .inl (by split <;> simp [failed])
      · exact .inr (.inl cached)
      · cases refresh with
        | false => exact same.elim
        | true => exact .inl (by simp [show mine = begun from same])
    case answer.fetching keys refresh fetch begun =>
      obtain ⟨others, accounted, sound⟩ := inv.busy (underWay_of stands rfl)
      rw [stands] at accounted sound
      obtain ⟨numbered, past, cached⟩ := sound
      refine .of_put rfl others inv.spaced inv.past inv.number (fun mine member => ?_)
        ⟨numbered, fun ks found => ?_⟩
      rcases accounted mine member with failed | installed | same
      · exact .inl failed
      · exact .inr (.inl installed)
      · cases refresh with
        | false => exact same.elim
        | true => exact .inr (.inr ⟨s.clock, rfl, inv.past mine member⟩)
      · obtain ⟨rfl, order⟩ := cached ks found
        exact ⟨order, s.clock, rfl, inv.past⟩
    case install.answered refresh ks =>
      obtain ⟨others, accounted, sound⟩ := inv.busy (underWay_of stands rfl)
      rw [stands] at accounted sound
      obtain ⟨numbered, cached⟩ := sound
      refine .of_put rfl others inv.spaced inv.past ?_ (fun mine member => ?_) ?_
      · intro new same
        cases same
        exact numbered
      · rcases accounted mine member with failed | ⟨old, last, found, stamp, order⟩ | ⟨last, stamp, order⟩
        · exact .inl failed
        · obtain ⟨-, since, stamp, before⟩ := cached old found
          exact .inr (.inl ⟨ks, since, rfl, stamp, before mine member⟩)
        · exact .inr (.inl ⟨ks, last, rfl, stamp, order⟩)
      · cases refresh <;> trivial
    case unknownKid.holding =>
      obtain ⟨quiet, failures⟩ := alone
      cases free : s.throttled minRefreshInterval with
      | true =>
        exact inv.aside (underWay_of stands rfl) rfl
      | false =>
        refine .of_put rfl (fun u _ => quiet u) inv.spaced inv.past inv.number
          (fun begun member => inv.accounted quiet begun member) (fun begun member => ?_)
        have past := inv.past begun member
        have known : Accounted s.failures s.cached .idle begun := inv.accounted quiet begun member
        rcases known with failed | ⟨ks, last, found, stamp, order⟩ | mine
        · exact failures begun failed
        · have since := not_throttled free found stamp
          change begun + minRefreshInterval ≤ s.clock
          omega
        · exact mine.elim

theorem Inv.forward {l : Label T K} (inv : Inv minRefreshInterval s)
    (taken : next minRefreshInterval s l = some s') : Forward ⟨s, l, s'⟩ := by
  intro old new before after
  cases l with
  | tick now =>
    obtain ⟨order, ⟨⟩⟩ := ite_none_right_eq_some.mp taken
    rw [before] at after
    cases after
    exact le_rfl
  | act t a =>
    simp only [next] at taken
    cases a <;> cases stands : s.calls t <;>
      simp only [State.act, stands, some.injEq, reduceCtorEq] at taken <;> subst taken
    case install.answered refresh ks =>
      obtain ⟨-, -, sound⟩ := inv.busy (underWay_of stands rfl)
      rw [stands] at sound
      cases after
      exact (sound.2 old before).1
    all_goals
      cases before.symm.trans after
      exact le_rfl

/-- While no fetch begins beside another one, and none within an interval after a refresh that
failed, refresh fetches are an interval apart and the cached set only moves forward. -/
theorem refreshes_spaced_and_forward {events : List (Event (State T K) (Label T K))}
    (run : Run (fun s l s' => next minRefreshInterval s l = some s') initial events s)
    (alone : ∀ e ∈ events, Alone minRefreshInterval e) :
    Spaced minRefreshInterval s ∧ ∀ e ∈ events, Forward e := by
  have init : Inv minRefreshInterval (initial : State T K) :=
    ⟨.nil, by simp [initial], by simp [initial], none, by simp [initial, Phase.underWay],
      by simp [initial], trivial⟩
  have keep (s : State T K) (l : Label T K) (s' : State T K) (inv : Inv minRefreshInterval s)
      (alone : Alone minRefreshInterval ⟨s, l, s'⟩) (taken : next minRefreshInterval s l = some s') :=
    inv.step alone taken
  exact ⟨(run.invariant init keep alone).spaced,
    run.every_event init keep (fun _ _ _ inv _ taken => inv.forward taken) alone⟩

instance [Fintype T] [DecidableEq K] (e : Event (State T K) (Label T K)) :
    Decidable (Alone minRefreshInterval e) := by
  unfold Alone State.quiet
  split <;> infer_instance

def turns (t : T) (actions : List (Action K)) : List (Label T K) := actions.map (.act t)

def refreshed : List (Action Nat) := [.call, .start, .answer 1, .install, .unknownKid]

theorem refreshes_spaced_sample : ∃ events, ∃ s : State Unit Nat,
    Run (fun s l s' => next 60 s l = some s') initial events s ∧
      (s.started = [60, 0] ∧ s.cached = some ⟨3, 2, some 60⟩) ∧ Spaced 60 s ∧
      ∀ e ∈ events, Forward e := by
  obtain ⟨events, s, run, alone, began⟩ := Run.exists_of_play (next 60) initial
    (turns () (refreshed ++ [.start, .answer 2, .install]) ++
      .tick 60 :: turns () [.call, .unknownKid, .start, .answer 3, .install])
    (P := fun events s => (∀ e ∈ events, Alone 60 e) ∧ s.started = [60, 0] ∧
      s.cached = some ⟨3, 2, some 60⟩) (by decide +kernel)
  exact ⟨events, s, run, began, refreshes_spaced_and_forward run alone⟩

/-- A refresh that fails leaves no stamp and the next one begins at once; of two that overlap,
the answer to the earlier one is installed over the answer to the later one. -/
theorem refresh_again_and_back :
    (∃ events, ∃ s : State Unit Nat, Run (fun s l s' => next 60 s l = some s') initial events s ∧
      s.started = [0, 0]) ∧
    ∃ events, ∃ s : State Bool Nat, Run (fun s l s' => next 60 s l = some s') initial events s ∧
      ∃ e ∈ events, e.pre.cached = some ⟨3, 2, some 0⟩ ∧ e.post.cached = some ⟨2, 1, some 0⟩ :=
  ⟨Run.exists_of_play (next 60) initial
      (turns () (refreshed ++ [.start, .fail, .call, .unknownKid, .start])) (by decide +kernel),
    Run.exists_of_play (next 60) initial
      (turns true refreshed ++ turns false [.call, .unknownKid] ++ turns true [.start] ++
        turns false [.start, .answer 3, .install] ++ turns true [.answer 2, .install])
      (by decide +kernel)⟩

end BucketVcs.Oidc
