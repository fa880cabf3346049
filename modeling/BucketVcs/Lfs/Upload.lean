import BucketVcs.Lfs.Gc
import BucketVcs.Lib.Run

/-! Uploads of one LFS object through the gateway: `servePut` stores the body first and
compares its hash afterwards. -/

namespace BucketVcs.Lfs.Upload

open Transition Interleave

abbrev ThreadId := Nat

/-- The object at the key. As history of the run, the request that wrote it. -/
structure Object where
  bytes : Bytes
  version : Nat
  writer : ThreadId

/-- What the key holds, and as history whether a request has been answered with 200. -/
structure World where
  object : Option Object
  accepted : Bool

def maxLFSObjectSize : Nat := 5 * 1024 * 1024 * 1024

inductive Status where
  | ok
  | tooLarge
  | hashMismatch
  | storageError
  deriving DecidableEq, Repr

inductive Phase where
  | idle
  | received (body : Bytes)
  -- `PutIfAbsent` returned a version
  | created (body : Bytes) (version : Nat)
  -- `PutIfAbsent` returned `ErrAlreadyExists`; the rest of the body is drained
  | exists (body : Bytes)
  -- before `DeleteIfVersionMatches`
  | removing (body : Bytes) (version : Nat)
  | answered (status : Status)
  | crashed

inductive Label where
  | work
  | crash
  -- `PutIfAbsent` stored the body and reported an error
  | unconfirmed (body : Bytes)
  | alreadyExists (body : Bytes)
  | removeFails

section

variable (hash : Bytes → OID) (oid : OID)

/-- One step of a request. The hash is compared when the whole body has been read. -/
inductive Move (t : ThreadId) : World → Phase → Label → World → Phase → Prop where
  | receive {σ} (body : Bytes) : Move t σ .idle .work σ (.received body)
  | crash {σ phase} : Move t σ phase .crash σ .crashed
  -- `PutIfAbsent`
  | putTooLarge {σ body} (large : maxLFSObjectSize < body.length) :
      Move t σ (.received body) .work σ (.answered .tooLarge)
  | putFails {σ body} : Move t σ (.received body) .work σ (.answered .storageError)
  | putUnconfirmed {σ body} (version : Nat) (absent : σ.object = none)
      (fits : body.length ≤ maxLFSObjectSize) :
      Move t σ (.received body) (.unconfirmed body) { σ with object := some ⟨body, version, t⟩ }
        (.answered .storageError)
  | put {σ body} (version : Nat) (absent : σ.object = none)
      (fits : body.length ≤ maxLFSObjectSize) :
      Move t σ (.received body) .work { σ with object := some ⟨body, version, t⟩ }
        (.created body version)
  | alreadyExists {σ body object} (present : σ.object = some object) :
      Move t σ (.received body) (.alreadyExists body) σ (.exists body)
  -- the drain
  | drainTooLarge {σ body} (large : maxLFSObjectSize < body.length) :
      Move t σ (.exists body) .work σ (.answered .tooLarge)
  | drainFails {σ body} : Move t σ (.exists body) .work σ (.answered .storageError)
  -- the hash
  | existsOk {σ body} (fits : body.length ≤ maxLFSObjectSize)
      (same : hash body = oid) :
      Move t σ (.exists body) .work { σ with accepted := true } (.answered .ok)
  | existsMismatch {σ body} (fits : body.length ≤ maxLFSObjectSize)
      (differs : hash body ≠ oid) : Move t σ (.exists body) .work σ (.answered .hashMismatch)
  | createdOk {σ body version} (same : hash body = oid) :
      Move t σ (.created body version) .work { σ with accepted := true } (.answered .ok)
  | createdMismatch {σ body version} (differs : hash body ≠ oid) :
      Move t σ (.created body version) .work σ (.removing body version)
  -- `DeleteIfVersionMatches`, whose result is dropped
  | remove {σ body version object}
      (current : σ.object = some object) (matching : object.version = version) :
      Move t σ (.removing body version) .work { σ with object := none } (.answered .hashMismatch)
  | removeMisses {σ body version}
      (other : ∀ object, σ.object = some object → object.version ≠ version) :
      Move t σ (.removing body version) .work σ (.answered .hashMismatch)
  | removeFails {σ body version} :
      Move t σ (.removing body version) .removeFails σ (.answered .hashMismatch)

abbrev State := Interleave.System ThreadId World Phase

def Step : State → ThreadId × Label → State → Prop := Interleave.Step (Move hash oid)

abbrev Occurrence := Event State (ThreadId × Label)

def Holds (σ : World) : Prop := ∃ object, σ.object = some object ∧ hash object.bytes = oid

def Phase.Finished : Phase → Prop
  | .answered _ | .crashed => True
  | _ => False

/-- A request that was answered with 200 has left the right bytes, and when all requests
have ended no other bytes are stored. -/
structure Durable (s : State) : Prop where
  accepted : s.shared.accepted = true → Holds hash oid s.shared
  clean : (∀ t, s.threads t = .idle ∨ (s.threads t).Finished) →
    ∀ object, s.shared.object = some object → hash object.bytes = oid

def Phase.Owes : Phase → Prop
  | .created body _ => hash body ≠ oid
  | .removing _ _ => True
  | _ => False

/-- Wrong bytes are stored by no request whose `PutIfAbsent` reports an error, are found by
no right upload, and their writer removes them: it does not crash before and the removal
does not fail. -/
structure Orderly (e : Occurrence) : Prop where
  confirmed : ∀ body, e.label.2 = .unconfirmed body → hash body = oid
  found : ∀ body, e.label.2 = .alreadyExists body → hash body = oid → Holds hash oid e.pre.shared
  survives : e.label.2 = .crash → ¬ (e.pre.threads e.label.1).Owes hash oid
  removes : e.label.2 ≠ .removeFails

structure Fresh (s : State) : Prop where
  idle : ∀ t, s.threads t = .idle
  accepted : s.shared.accepted = false
  object : ∀ object, s.shared.object = some object → hash object.bytes = oid

end

section Safety

variable {hash : Bytes → OID} {oid : OID}

def Global (hash : Bytes → OID) (oid : OID) (σ : World) : Prop :=
  σ.accepted = true → Holds hash oid σ

/-- What a request knows of the key: its own bytes are there until it removes them, it has
found the right ones, and wrong bytes of its own are still to be removed. -/
structure Local (hash : Bytes → OID) (oid : OID) (t : ThreadId) (σ : World) (phase : Phase) :
    Prop where
  created : ∀ body version, phase = .created body version → σ.object = some ⟨body, version, t⟩
  removing : ∀ body version, phase = .removing body version →
    σ.object = some ⟨body, version, t⟩ ∧ hash body ≠ oid
  found : ∀ body, phase = .exists body → hash body = oid → Holds hash oid σ
  wrong : ∀ object, σ.object = some object → object.writer = t → hash object.bytes ≠ oid →
    phase.Owes hash oid

/-- A request changes the key only by storing its own body or removing its own wrong one. -/
def Guarantee (hash : Bytes → OID) (oid : OID) (t : ThreadId) (σ σ' : World) : Prop :=
  σ'.object = σ.object ∨
    (σ.object = none ∧ ∃ object, σ'.object = some object ∧ object.writer = t) ∨
    (σ'.object = none ∧ ∃ object, σ.object = some object ∧ object.writer = t ∧
      hash object.bytes ≠ oid)

variable {t other : ThreadId} {σ σ' : World} {phase phase' : Phase} {l : Label}

theorem Guarantee.keeps (moved : Guarantee hash oid t σ σ') {object : Object}
    (present : σ.object = some object) (safe : object.writer ≠ t ∨ hash object.bytes = oid) :
    σ'.object = some object := by
  rcases moved with kept | ⟨absent, -⟩ | ⟨-, wrong, before, own, differs⟩
  · exact kept.trans present
  · rw [absent] at present
    cases present
  · rw [before] at present
    cases present
    rcases safe with different | same
    · exact absurd own different
    · exact absurd same differs

theorem Holds.stable (holds : Holds hash oid σ) (moved : Guarantee hash oid t σ σ') :
    Holds hash oid σ' := by
  obtain ⟨object, present, same⟩ := holds
  exact ⟨object, moved.keeps present (.inr same), same⟩

theorem Guarantee.origin (moved : Guarantee hash oid t σ σ') {object : Object}
    (present : σ'.object = some object) (different : object.writer ≠ t) :
    σ.object = some object := by
  rcases moved with kept | ⟨-, made, stored, own⟩ | ⟨gone, -⟩
  · exact kept.symm.trans present
  · rw [stored] at present
    cases present
    exact absurd own different
  · rw [gone] at present
    cases present

theorem Local.stable (different : other ≠ t) (moved : Guarantee hash oid t σ σ')
    (here : Local hash oid other σ phase) : Local hash oid other σ' phase where
  created body version stands := moved.keeps (here.created body version stands) (.inl different)
  removing body version stands := by
    obtain ⟨present, wrong⟩ := here.removing body version stands
    exact ⟨moved.keeps present (.inl different), wrong⟩
  found body stands same := (here.found body stands same).stable moved
  wrong object present own differs := by
    have before := moved.origin present (own ▸ different)
    exact here.wrong object before own differs

theorem Local.plain {σ : World} (paid : ∀ object, σ.object = some object → object.writer = t →
      hash object.bytes = oid) {phase : Phase}
    (plain : phase.Finished ∨ ∃ body, phase = .received body) : Local hash oid t σ phase where
  created body version stands := by
    subst stands
    rcases plain with finished | ⟨_, same⟩
    · cases finished
    · cases same
  removing body version stands := by
    subst stands
    rcases plain with finished | ⟨_, same⟩
    · cases finished
    · cases same
  found body stands := by
    subst stands
    rcases plain with finished | ⟨_, same⟩
    · cases finished
    · cases same
  wrong object present own differs := absurd (paid object present own) differs

theorem Local.paid (here : Local hash oid t σ phase) (paid : ¬ phase.Owes hash oid) (object : Object)
    (present : σ.object = some object) (own : object.writer = t) : hash object.bytes = oid := by
  by_contra differs
  exact paid (here.wrong object present own differs)

theorem Move.safe (moved : Move hash oid t σ phase l σ' phase') (global : Global hash oid σ)
    (here : Local hash oid t σ phase) (confirmed : ∀ body, l = .unconfirmed body → hash body = oid)
    (found : ∀ body, l = .alreadyExists body → hash body = oid → Holds hash oid σ)
    (survives : l = .crash → ¬ phase.Owes hash oid) (removes : l ≠ .removeFails) :
    Global hash oid σ' ∧ Local hash oid t σ' phase' ∧ Guarantee hash oid t σ σ' := by
  cases moved with
  | receive body => exact ⟨global, .plain (here.paid not_false) (.inr ⟨body, rfl⟩), .inl rfl⟩
  | crash => exact ⟨global, .plain (here.paid (survives rfl)) (.inl trivial), .inl rfl⟩
  | putTooLarge large | putFails | drainTooLarge large | drainFails =>
    exact ⟨global, .plain (here.paid not_false) (.inl trivial), .inl rfl⟩
  | @putUnconfirmed body version absent fits =>
    have moved : Guarantee hash oid t σ { σ with object := some ⟨body, version, t⟩ } :=
      .inr (.inl ⟨absent, _, rfl, rfl⟩)
    refine ⟨fun accepted => (global accepted).stable moved, ?_, moved⟩
    refine .plain ?_ (.inl ?_)
    · intro object present own
      cases present
      exact confirmed body rfl
    · trivial
  | @put body version absent fits =>
    have moved : Guarantee hash oid t σ { σ with object := some ⟨body, version, t⟩ } :=
      .inr (.inl ⟨absent, _, rfl, rfl⟩)
    refine ⟨fun accepted => (global accepted).stable moved, ?_, moved⟩
    constructor
    · intro other number stands
      cases stands
      rfl
    · intro other number stands
      cases stands
    · intro other stands
      cases stands
    · intro object present own differs
      cases present
      exact differs
  | alreadyExists present =>
    refine ⟨global, ?_, .inl rfl⟩
    constructor
    · intro other number stands
      cases stands
    · intro other number stands
      cases stands
    · intro other stands same
      cases stands
      exact found _ rfl same
    · intro object stored own differs
      exact absurd (here.paid not_false object stored own) differs
  | existsOk fits same =>
    have holds := here.found _ rfl same
    refine ⟨fun _ => holds, .plain ?_ (.inl trivial), .inl rfl⟩
    exact here.paid not_false
  | existsMismatch fits differs =>
    exact ⟨global, .plain (here.paid not_false) (.inl trivial), .inl rfl⟩
  | createdOk same =>
    have present := here.created _ _ rfl
    refine ⟨fun _ => ⟨_, present, same⟩, .plain ?_ (.inl trivial), .inl rfl⟩
    exact here.paid fun owes => owes same
  | @createdMismatch body version differs =>
    have present := here.created _ _ rfl
    refine ⟨global, ?_, .inl rfl⟩
    constructor
    · intro other number stands
      cases stands
    · intro other number stands
      cases stands
      exact ⟨present, differs⟩
    · intro other stands
      cases stands
    · intro object stored own wrong
      trivial
  | @remove body version object current matching =>
    obtain ⟨present, wrong⟩ := here.removing _ _ rfl
    have moved : Guarantee hash oid t σ { σ with object := none } :=
      .inr (.inr ⟨rfl, _, present, rfl, wrong⟩)
    refine ⟨fun accepted => (global accepted).stable moved, .plain ?_ (.inl trivial), moved⟩
    intro object stored
    cases stored
  | removeMisses other =>
    obtain ⟨present, wrong⟩ := here.removing _ _ rfl
    exact absurd rfl (other _ present)
  | removeFails => exact absurd rfl removes

theorem Fresh.safe {s : State} (fresh : Fresh hash oid s) :
    Safe (Global hash oid) (Local hash oid) s := by
  constructor
  · intro accepted
    rw [fresh.accepted] at accepted
    cases accepted
  · intro t
    rw [fresh.idle t]
    constructor
    · intro body version stands
      cases stands
    · intro body version stands
      cases stands
    · intro body stands
      cases stands
    · intro object present own differs
      exact absurd (fresh.object object present) differs

theorem durable_of_safe {s : State} (safe : Safe (Global hash oid) (Local hash oid) s) :
    Durable hash oid s where
  accepted := safe.global
  clean ended object present := by
    apply (safe.thread object.writer).paid _ object present rfl
    intro owes
    rcases ended object.writer with idle | finished
    · rw [idle] at owes
      exact owes
    · revert owes finished
      cases s.threads object.writer <;> simp [Phase.Owes, Phase.Finished]

end Safety

/-- In every interleaving of uploads of one object whose wrong bytes are removed undisturbed,
what was accepted is there, and nothing wrong is left behind. -/
theorem accepted_upload_durable (hash : Bytes → OID) (oid : OID) {start s : State}
    {events : List Occurrence} (fresh : Fresh hash oid start)
    (run : Run (Step hash oid) start events s) (orderly : ∀ e ∈ events, Orderly hash oid e) :
    Durable hash oid s := by
  apply durable_of_safe
  apply safe_of_rely_guarantee (Guarantee hash oid) fresh.safe _ _ run orderly
  · intro s s' t l global here allowed moved
    exact moved.safe global here allowed.confirmed allowed.found allowed.survives allowed.removes
  · intro t other before after phase different global moved here
    exact here.stable different moved

/-! ### Two uploads of one object, the first of them with other bytes -/

def vacant : State := ⟨⟨none, false⟩, fun _ => .idle⟩

theorem fresh_vacant (hash : Bytes → OID) (oid : OID) : Fresh hash oid vacant :=
  ⟨fun _ => rfl, rfl, fun object present => by cases present⟩

section Samples

variable (hash : Bytes → OID) (oid : OID) (body : Bytes) {allowed : Occurrence → Prop}

theorem reached_created (fits : body.length ≤ maxLFSObjectSize)
    (work : ∀ e : Occurrence, e.label.2 = .work → allowed e) :
    Reached (Move hash oid) allowed vacant
      (advance vacant 0 ⟨some ⟨body, 1, 0⟩, false⟩ (.created body 1)) := by
  have start : Interleave.Reached (Move hash oid) allowed vacant vacant :=
    reached_start vacant
  have received := start.take 0 rfl (.receive body) (work _ rfl)
  exact received.again (.put 1 rfl fits) (work _ rfl)

theorem reached_crashed (fits : body.length ≤ maxLFSObjectSize) :
    Reached (Move hash oid) (fun _ => True) vacant
      (advance vacant 0 ⟨some ⟨body, 1, 0⟩, false⟩ .crashed) :=
  (reached_created hash oid body fits fun _ _ => trivial).again .crash trivial

theorem reached_lost (right : Bytes) (fits : body.length ≤ maxLFSObjectSize)
    (rightFits : right.length ≤ maxLFSObjectSize) (wrong : hash body ≠ oid)
    (same : hash right = oid) :
    ∃ s, Reached (Move hash oid) (fun _ => True) vacant s ∧
      s.shared = ⟨none, true⟩ := by
  have created : Interleave.Reached (Move hash oid) (fun _ => True) vacant _ :=
    reached_created hash oid body fits fun _ _ => trivial
  have received := created.take 1 (advance_of_ne vacant one_ne_zero ..) (.receive right)
    trivial
  have found := received.again (.alreadyExists rfl) trivial
  have accepted := found.again (.existsOk rightFits same) trivial
  have stands : (advance (advance vacant 0 ⟨some ⟨body, 1, 0⟩, false⟩
      (.created body 1)) 1 ⟨some ⟨body, 1, 0⟩, true⟩ (.answered .ok)).threads 0 =
        .created body 1 :=
    (advance_of_ne _ zero_ne_one ..).trans (advance_self ..)
  have compared := accepted.take 0 stands (.createdMismatch wrong) trivial
  exact ⟨_, compared.again (.remove rfl rfl) trivial, rfl⟩

end Samples

/-- A digest of 32 bytes. -/
def checksum (body : Bytes) : OID := List.replicate 31 0 ++ [body.foldl (· ^^^ ·) 0]

/-- Wrong bytes are removed again, right ones are stored, and found by a third upload. -/
theorem accepted_upload_durable_sample : ∃ events s,
    Run (Step checksum (checksum [7])) vacant events s ∧
      (∀ e ∈ events, Orderly checksum (checksum [7]) e) ∧
      (s.threads 0 = .answered .hashMismatch ∧ s.threads 1 = .answered .ok ∧
        s.threads 2 = .answered .ok) ∧ Durable checksum (checksum [7]) s := by
  have work : ∀ e : Occurrence, e.label.2 = .work → Orderly checksum (checksum [7]) e := by
    intro e label
    constructor <;> simp [label]
  have created := reached_created checksum (checksum [7]) [8] (by decide) work
  have compared := created.again (.createdMismatch (by decide)) (work _ rfl)
  have removed := compared.again (.remove rfl rfl) (work _ rfl)
  have received := removed.take 1 (advance_of_ne vacant one_ne_zero ..) (.receive [7]) (work _ rfl)
  have stored := received.again (.put 2 rfl (by decide)) (work _ rfl)
  have accepted := stored.again (.createdOk rfl) (work _ rfl)
  have asked := accepted.take 2 rfl (.receive [7]) (work _ rfl)
  have found := asked.again (.alreadyExists rfl)
    ⟨by simp, fun _ _ _ => ⟨_, rfl, rfl⟩, by simp, by simp⟩
  obtain ⟨events, run, orderly⟩ := found.again (.existsOk (by decide) rfl) (work _ rfl)
  exact ⟨events, _, run, orderly, ⟨rfl, rfl, rfl⟩,
    accepted_upload_durable checksum (checksum [7]) (fresh_vacant ..) run orderly⟩

/-- The accepted object is gone; and a crash leaves bytes under another object's name. -/
theorem accepted_upload_lost :
    (∃ events s, Run (Step id [7]) vacant events s ∧ s.shared.accepted = true ∧
      s.shared.object = none) ∧
    ∃ events s, Run (Step id [7]) vacant events s ∧
      (∀ t, s.threads t = .idle ∨ (s.threads t).Finished) ∧
        ∃ object, s.shared.object = some object ∧ object.bytes ≠ [7] := by
  constructor
  · obtain ⟨s, ⟨events, run, -⟩, shared⟩ :=
      reached_lost id [7] [8] [7] (by decide) (by decide) (by decide) rfl
    exact ⟨events, s, run, by rw [shared], by rw [shared]⟩
  · obtain ⟨events, run, -⟩ := reached_crashed id [7] [8] (by decide)
    refine ⟨events, _, run, ?_, _, rfl, by decide⟩
    intro t
    by_cases first : t = 0
    · subst first
      exact .inr trivial
    · exact .inl (advance_of_ne vacant first ..)

end BucketVcs.Lfs.Upload
