import BucketVcs.Lib.Calendar
import BucketVcs.Lib.Run

/-! `Enqueue`, the intake loop, `Flush` and `Close` of the log shipper, in any interleaving, and the
events that none of them counts. -/

namespace BucketVcs.Shiplog

open Transition List Option Scan

inductive Stream where
  | activity
  | usage
  deriving DecidableEq, Repr

structure LogEvent where
  stream : Stream
  line : List UInt8
  deriving DecidableEq, Repr

/-- Where `intakeLoop` is: at its select, in the `drainQueued` of a flush or in that of the
teardown, or gone. -/
inductive Intake where
  | selecting
  | flushing
  | tearingDown
  | exited
  deriving DecidableEq, Repr

/-- Where `Close` is: not called, after `closed.Store`, after `close(done)`, draining what came
after the intake loop, done with that, or returned. -/
inductive Closing where
  | open
  | stored
  | waiting
  | draining
  | drained
  | returned
  deriving DecidableEq, Repr

structure Engine where
  ch : List LogEvent
  closed : Bool
  done : Bool
  intake : Intake
  closing : Closing
  /-- The `Enqueue` calls that found `closed` false and have not reached a branch of their select. -/
  suspended : List LogEvent
  /-- The calls of `Enqueue`. -/
  enqueued : ℕ
  /-- The lines written to spool files; rotation renames the files. -/
  spooled : List LogEvent
  dropped : ℕ
  deriving DecidableEq, Repr

def Engine.new : Engine := ⟨[], false, false, .selecting, .open, [], 0, [], 0⟩

inductive Action where
  | enqueue (event : LogEvent)
  | send (caller : ℕ)
  | seeDone (caller : ℕ)
  | seeFull (caller : ℕ)
  | receive
  | flush
  | teardown
  | queueEmpty
  | storeClosed
  | closeDone
  | joinIntake
  | giveUp
  | drainOne
  | stopDraining
  | return
  deriving DecidableEq, Repr

def Engine.append (e : Engine) (event : LogEvent) : Engine :=
  { e with spooled := e.spooled ++ [event] }

def Engine.drop (e : Engine) : Engine := { e with dropped := e.dropped + 1 }

def Engine.leave (e : Engine) (caller : ℕ) : Engine :=
  { e with suspended := e.suspended.eraseIdx caller }

def Engine.enter (e : Engine) (event : LogEvent) : Engine :=
  let e := { e with enqueued := e.enqueued + 1 }
  if e.closed then e.drop else { e with suspended := e.suspended ++ [event] }

section Steps

variable (queueSize : ℕ)

def Engine.next (e : Engine) : Action → Option Engine
  | .enqueue event => some (e.enter event)
  | .send caller =>
    match e.suspended[caller]? with
    | some event =>
      if e.ch.length < queueSize then some { e.leave caller with ch := e.ch ++ [event] } else none
    | none => none
  | .seeDone caller =>
    if caller < e.suspended.length ∧ e.done then some (e.leave caller).drop else none
  | .seeFull caller =>
    -- the default of the select: the queue is full, and `done` is open
    if caller < e.suspended.length ∧ queueSize ≤ e.ch.length ∧ !e.done then some (e.leave caller).drop
    else none
  | .receive =>
    match e.ch with
    | event :: rest => if e.intake = .exited then none else some ({ e with ch := rest }.append event)
    | [] => none
  | .flush => if e.intake = .selecting then some { e with intake := .flushing } else none
  | .teardown =>
    if e.intake = .selecting ∧ e.done then some { e with intake := .tearingDown } else none
  | .queueEmpty =>
    if e.ch = [] then
      match e.intake with
      | .flushing => some { e with intake := .selecting }
      | .tearingDown => some { e with intake := .exited }
      | _ => none
    else none
  | .storeClosed =>
    if e.closing = .open then some { e with closing := .stored, closed := true } else none
  | .closeDone => if e.closing = .stored then some { e with closing := .waiting, done := true } else none
  | .joinIntake =>
    if e.closing = .waiting ∧ e.intake = .exited then some { e with closing := .draining } else none
  | .giveUp => if e.closing = .waiting then some { e with closing := .returned } else none
  | .drainOne =>
    match e.ch with
    | _ :: rest => if e.closing = .draining then some { e with ch := rest }.drop else none
    | [] => none
  | .stopDraining =>
    if e.closing = .draining ∧ e.ch = [] then some { e with closing := .drained } else none
  | .return => if e.closing = .drained then some { e with closing := .returned } else none

def Step (e : Engine) (action : Action) (e' : Engine) : Prop := e.next queueSize action = some e'

end Steps

/-- Every call is waiting, or its event is in the queue, in a spool file or among the dropped. -/
def Engine.Conserved (e : Engine) : Prop :=
  e.enqueued = e.suspended.length + e.ch.length + e.spooled.length + e.dropped

/-- `Close` is past its last look at the queue. -/
def Engine.Past (e : Engine) : Prop := e.closing = .drained ∨ e.closing = .returned

/-- `Close` drains the queue after the intake loop is gone. -/
def Engine.Joined (e : Engine) : Prop := e.closing = .draining ∨ e.Past → e.intake = .exited

def Engine.Finished (e : Engine) : Prop := e.closing = .returned ∧ e.suspended = []

instance (e : Engine) : Decidable e.Past := inferInstanceAs (Decidable (_ ∨ _))

instance (e : Engine) : Decidable e.Finished := inferInstanceAs (Decidable (_ ∧ _))

/-- A call that found `closed` false sends after `Close` has drained the queue. -/
def LateSend (x : Event Engine Action) : Prop := (∃ caller, x.label = .send caller) ∧ x.pre.Past

variable {queueSize : ℕ} {e e' : Engine} {action : Action}

theorem length_leave {caller : ℕ} (here : caller < e.suspended.length) :
    (e.leave caller).suspended.length + 1 = e.suspended.length := by
  simp only [Engine.leave]
  rw [length_eraseIdx_of_lt here]
  omega

theorem Engine.Conserved.step (conserved : e.Conserved) (taken : Step queueSize e action e') :
    e'.Conserved := by
  unfold Engine.Conserved at conserved ⊢
  cases action with
  | enqueue event =>
    obtain rfl := some.inj taken
    simp only [Engine.enter]
    split
    · simp only [Engine.drop]
      omega
    · simp only [length_append, length_singleton]
      omega
  | send caller =>
    simp only [Step, Engine.next] at taken
    split at taken
    · rename_i event found
      split at taken
      · obtain rfl := some.inj taken
        have shorter := length_leave (List.getElem?_eq_some_iff.mp found).1
        simp only [length_append, length_singleton, Engine.leave] at shorter ⊢
        omega
      · cases taken
    · cases taken
  | seeDone caller | seeFull caller =>
    obtain ⟨there, ⟨⟩⟩ := ite_none_right_eq_some.mp taken
    have shorter := length_leave there.1
    simp only [Engine.drop, Engine.leave] at shorter ⊢
    omega
  | receive =>
    simp only [Step, Engine.next] at taken
    split at taken
    · rename_i event rest queue
      split at taken
      · cases taken
      · obtain rfl := some.inj taken
        simp only [queue, Engine.append, length_append, length_cons, length_nil]
          at conserved ⊢
        omega
    · cases taken
  | drainOne =>
    simp only [Step, Engine.next] at taken
    split at taken
    · rename_i event rest queue
      split at taken
      · obtain rfl := some.inj taken
        simp only [queue, Engine.drop, length_cons] at conserved ⊢
        omega
      · cases taken
    · cases taken
  | queueEmpty =>
    simp only [Step, Engine.next] at taken
    split at taken
    · split at taken <;> cases taken <;> exact conserved
    · cases taken
  | _ =>
    -- the other actions only move `Close` or the intake loop on
    obtain ⟨-, ⟨⟩⟩ := ite_none_right_eq_some.mp taken
    exact conserved

/-- What a step does to the queue once `Close` does not look at it again. -/
inductive Leaves (e : Engine) (action : Action) (e' : Engine) : Prop
  | before (notPast : ¬e.Past) (notPast' : ¬e'.Past)
  | emptied (notPast : ¬e.Past) (empty : e'.ch = [])
  | sent (past : e.Past) (past' : e'.Past) {caller : ℕ} (late : action = .send caller) (kept : e'.ch ≠ [])
  | untouched (past : e.Past) (past' : e'.Past) (other : ∀ caller, action ≠ .send caller)
      (same : e'.ch = e.ch)

theorem leaves_of_same (closing : e'.closing = e.closing) (other : ∀ caller, action ≠ .send caller)
    (same : e.Past → e'.ch = e.ch) : Leaves e action e' := by
  by_cases past : e.Past
  · exact .untouched past (by rwa [Engine.Past, closing]) other (same past)
  · exact .before past (by rwa [Engine.Past, closing])

theorem Engine.Joined.of_same (joined : e.Joined) (closing : e'.closing = e.closing)
    (intake : e'.intake = e.intake) : e'.Joined := by
  intro draining
  rw [intake]
  exact joined (by rwa [Engine.Past, closing] at draining)

theorem Engine.Joined.of_running (joined : e.Joined) (closing : e'.closing = e.closing)
    (running : e.intake ≠ .exited) : e'.Joined := by
  intro draining
  exact absurd (joined (by rwa [Engine.Past, closing] at draining)) running

attribute [local simp] Engine.Past

theorem Engine.Joined.step (joined : e.Joined) (taken : Step queueSize e action e')
    (stays : action ≠ .giveUp) : e'.Joined ∧ Leaves e action e' := by
  cases action with
  | enqueue event =>
    obtain rfl := some.inj taken
    have same : (e.enter event).closing = e.closing ∧ (e.enter event).intake = e.intake ∧
        (e.enter event).ch = e.ch := by
      unfold Engine.enter
      dsimp only
      split <;> exact ⟨rfl, rfl, rfl⟩
    exact ⟨joined.of_same same.1 same.2.1, leaves_of_same same.1 (by simp) fun _ => same.2.2⟩
  | send caller =>
    simp only [Step, Engine.next] at taken
    split at taken
    · split at taken
      · obtain rfl := some.inj taken
        refine ⟨joined.of_same rfl rfl, ?_⟩
        by_cases past : e.Past
        · exact .sent past past rfl (by simp)
        · exact .before past past
      · cases taken
    · cases taken
  | receive =>
    simp only [Step, Engine.next] at taken
    split at taken
    · split at taken
      · cases taken
      · rename_i running
        obtain rfl := some.inj taken
        refine ⟨joined.of_same rfl rfl, leaves_of_same rfl (by simp) ?_⟩
        intro past
        exact absurd (joined (.inr past)) running
    · cases taken
  | drainOne =>
    simp only [Step, Engine.next] at taken
    split at taken
    · split at taken
      · rename_i draining
        obtain rfl := some.inj taken
        refine ⟨joined.of_same rfl rfl, leaves_of_same rfl (by simp) ?_⟩
        rintro (drained | returned)
        · cases draining.symm.trans drained
        · cases draining.symm.trans returned
      · cases taken
    · cases taken
  | seeDone caller | seeFull caller =>
    obtain ⟨-, ⟨⟩⟩ := ite_none_right_eq_some.mp taken
    exact ⟨joined.of_same rfl rfl, leaves_of_same rfl (by simp) fun _ => rfl⟩
  | flush | teardown =>
    obtain ⟨selecting, ⟨⟩⟩ := ite_none_right_eq_some.mp taken
    exact ⟨joined.of_running rfl (by simp [selecting]), leaves_of_same rfl (by simp) fun _ => rfl⟩
  | queueEmpty =>
    simp only [Step, Engine.next] at taken
    split at taken
    · split at taken
      · rename_i flushing
        obtain rfl := some.inj taken
        exact ⟨joined.of_running rfl (by simp [flushing]), leaves_of_same rfl (by simp) fun _ => rfl⟩
      · rename_i tearingDown
        obtain rfl := some.inj taken
        exact ⟨joined.of_running rfl (by simp [tearingDown]), leaves_of_same rfl (by simp) fun _ => rfl⟩
      · cases taken
    · cases taken
  | storeClosed | closeDone =>
    obtain ⟨early, ⟨⟩⟩ := ite_none_right_eq_some.mp taken
    exact ⟨by simp [Engine.Joined],
      .before (by simp [early]) (by simp)⟩
  | joinIntake =>
    obtain ⟨gone, ⟨⟩⟩ := ite_none_right_eq_some.mp taken
    exact ⟨fun _ => gone.2, .before (by simp [gone.1]) (by simp)⟩
  | giveUp => exact absurd rfl stays
  | stopDraining =>
    obtain ⟨last, ⟨⟩⟩ := ite_none_right_eq_some.mp taken
    exact ⟨fun _ => joined (.inl last.1), .emptied (by simp [last.1]) last.2⟩
  | «return» =>
    obtain ⟨drained, ⟨⟩⟩ := ite_none_right_eq_some.mp taken
    exact ⟨fun _ => joined (.inr (.inl drained)), .untouched (.inl drained) (.inr rfl) (by simp) rfl⟩

section Runs

variable {events : List (Event Engine Action)}

section

variable (run : Run (Step queueSize) .new events e)
include run

theorem conserved_of_run : e.Conserved := by
  have keep (e : Engine) (action : Action) (e' : Engine) (conserved : e.Conserved) (_ : True)
      (taken : Step queueSize e action e') : e'.Conserved := conserved.step taken
  have start : Engine.new.Conserved := rfl
  exact run.invariant start keep fun _ _ => trivial

theorem joined_of_run (stays : ∀ x ∈ events, x.label ≠ .giveUp) : e.Joined := by
  have start : Engine.new.Joined := by simp [Engine.Joined, Engine.new]
  refine run.invariant start ?_ stays
  exact fun e action e' joined stays taken => (joined.step taken stays).1

theorem ch_empty_of_run
    (orderly : ∀ x ∈ events, x.label ≠ .giveUp ∧ ¬LateSend x) : e.Past → e.ch = [] := by
  refine (run.invariant (I := fun e => e.Joined ∧ (e.Past → e.ch = [])) ?_ ?_ orderly).2
  · exact ⟨by simp [Engine.Joined, Engine.new], fun _ => rfl⟩
  · rintro e action e' ⟨joined, empty⟩ ⟨stays, onTime⟩ taken
    obtain ⟨joined', leaves⟩ := joined.step taken stays
    refine ⟨joined', fun past' => ?_⟩
    cases leaves with
    | before _ notPast => exact absurd past' notPast
    | emptied _ gone => exact gone
    | sent past _ late _ => exact absurd ⟨⟨_, late⟩, past⟩ onTime
    | untouched past _ _ same => rw [same, empty past]

end

theorem ch_left_of_late {x : Event Engine Action} {later earlier : List (Event Engine Action)}
    (run : Run (Step queueSize) .new (later ++ x :: earlier) e)
    (stays : ∀ y ∈ later ++ x :: earlier, y.label ≠ .giveUp) (late : LateSend x) : e.ch ≠ [] := by
  obtain ⟨taken, before, after⟩ := run.split
  have joined := joined_of_run before fun y member => stays y (by simp [member])
  obtain ⟨⟨caller, label⟩, past⟩ := late
  obtain ⟨joined', leaves⟩ := joined.step taken (stays x (by simp))
  have left : x.post.Past ∧ x.post.ch ≠ [] := by
    cases leaves with
    | before notPast _ | emptied notPast _ => exact absurd past notPast
    | sent _ past' _ kept => exact ⟨past', kept⟩
    | untouched _ _ other _ => exact absurd label (other caller)
  have keep : ∀ y ∈ later, y.label ≠ .giveUp := fun y member => stays y (by simp [member])
  refine (after.invariant (I := fun e => e.Joined ∧ e.Past ∧ e.ch ≠ []) ⟨joined', left⟩ ?_ keep).2.2
  rintro e action e' ⟨joined, past, kept⟩ stays taken
  obtain ⟨joined', leaves⟩ := joined.step taken stays
  cases leaves with
  | before notPast _ | emptied notPast _ => exact absurd past notPast
  | sent _ past' _ kept' => exact ⟨joined', past', kept'⟩
  | untouched _ past' _ same => exact ⟨joined', past', same ▸ kept⟩

/-- When `Close` and every `Enqueue` have returned, what is not counted is what is left in the
queue; and if `Close` waited for the intake loop, that is what was sent after it had drained. -/
theorem every_event_counted_iff (queueSize : ℕ) {events : List (Event Engine Action)} {e : Engine}
    (run : Run (Step queueSize) .new events e) (finished : e.Finished) :
    (e.enqueued = e.spooled.length + e.dropped ↔ e.ch = []) ∧
      ((∀ x ∈ events, x.label ≠ .giveUp) →
        (e.enqueued = e.spooled.length + e.dropped ↔ ∀ x ∈ events, ¬LateSend x)) := by
  obtain ⟨returned, none_waits⟩ := finished
  have exactly : e.enqueued = e.spooled.length + e.dropped ↔ e.ch = [] := by
    have conserved := conserved_of_run run
    rw [Engine.Conserved, none_waits] at conserved
    rw [← length_eq_zero_iff]
    simp only [length_nil] at conserved
    omega
  refine ⟨exactly, fun stays => exactly.trans ⟨?_, ?_⟩⟩
  · intro empty x member late
    obtain ⟨later, earlier, rfl⟩ := append_of_mem member
    exact ch_left_of_late run stays late empty
  · intro onTime
    exact ch_empty_of_run run (fun x member => ⟨stays x member, onTime x member⟩) (.inr returned)

end Runs

def oneLine : LogEvent := ⟨.activity, [0x7B, 0x7D]⟩

def orderlyClose : List Action :=
  [.enqueue oneLine, .send 0, .storeClosed, .enqueue oneLine, .closeDone, .teardown, .receive,
    .queueEmpty, .joinIntake, .stopDraining, .return]

theorem orderly_close_counts :
    ∃ events e, Run (Step 1) .new events e ∧ e.Finished ∧ e.enqueued = 2 ∧
      e.enqueued = e.spooled.length + e.dropped := by
  obtain ⟨events, e, run, finished, two, empty⟩ :=
    Run.exists_of_play (Engine.next 1) .new orderlyClose
      (P := fun _ e => e.Finished ∧ e.enqueued = 2 ∧ e.ch = []) (by decide +kernel)
  exact ⟨events, e, run, finished, two, (every_event_counted_iff 1 run finished).1.mpr empty⟩

def sendAfterClose : List Action :=
  [.enqueue oneLine, .storeClosed, .closeDone, .teardown, .queueEmpty, .joinIntake, .stopDraining,
    .return, .send 0]

/-- The select may take the send although `done` is closed, and nobody reads the queue any more. -/
theorem late_send_uncounted :
    ∃ events e, Run (Step 1) .new events e ∧ e.Finished ∧ (∀ x ∈ events, x.label ≠ .giveUp) ∧
      e.enqueued = 1 ∧ e.spooled = [] ∧ e.dropped = 0 :=
  Run.exists_of_play (Engine.next 1) .new sendAfterClose (by decide +kernel)

/-! The names of spool files, the regular expressions that read them back and the bucket keys that
are derived from them. -/

open Calendar Decimal

abbrev Text := List Char

def Stream.text : Stream → Text
  | .activity => ['a', 'c', 't', 'i', 'v', 'i', 't', 'y']
  | .usage => ['u', 's', 'a', 'g', 'e']

def isHex (c : Char) : Bool := c.isDigit || ('a' ≤ c && c ≤ 'f')

/-- What `hex.EncodeToString` makes of the random bytes. -/
structure InstanceID where
  text : Text
  nonempty : text ≠ []
  hex : ∀ c ∈ text, isHex c = true
  deriving DecidableEq, Repr

/-- The active file an event went to: every `openActive` counts `seq` up. -/
structure Origin where
  stream : Stream
  instanceID : InstanceID
  seq : ℕ
  deriving DecidableEq, Repr

def ndjson : Text := ['.', 'n', 'd', 'j', 's', 'o', 'n']

def pendingMark : Text := ['.', 'p', 'e', 'n', 'd', 'i', 'n', 'g', '.']

def Origin.stem (origin : Origin) : Text :=
  origin.stream.text ++ ('-' :: (origin.instanceID.text ++ ('-' :: padded 6 origin.seq)))

def activeName (origin : Origin) : Text := origin.stem ++ ndjson

def pendingName (origin : Origin) (ts : Moment) : Text :=
  origin.stem ++ (pendingMark ++ (ts.stamp ++ ndjson))

/-- The name `adoptLeftovers` gives an orphaned active file, from its modification time. -/
def adoptedName (name : Text) (modTime : Moment) : Text :=
  (if ndjson <:+ name then name.take (name.length - ndjson.length) else name) ++
    (pendingMark ++ (modTime.stamp ++ ndjson))

theorem adoptedName_activeName (origin : Origin) (modTime : Moment) :
    adoptedName (activeName origin) modTime = pendingName origin modTime := by
  have trimmed : (activeName origin).take ((activeName origin).length - ndjson.length) =
      origin.stem := by simp [activeName]
  have ends : ndjson <:+ activeName origin := suffix_append origin.stem ndjson
  rw [adoptedName, if_pos ends, trimmed, pendingName]

/-! ### The regular expressions -/

def scanStream (text : Text) : Option (Stream × Text) :=
  match Scan.literal Stream.activity.text text with
  | some rest => some (.activity, rest)
  | none => (Scan.literal Stream.usage.text text).map fun rest => (.usage, rest)

/-- `^(activity|usage)-([0-9a-f]+)-(\d{6})`, where both expressions begin. -/
def scanStem (text : Text) : Option ((Stream × Text × Text) × Text) := do
  let (stream, text) ← scanStream text
  let text ← Scan.literal ['-'] text
  let (instanceID, text) ← Scan.run isHex text
  let text ← Scan.literal ['-'] text
  let (seq, text) ← Scan.exactly 6 Char.isDigit text
  return ((stream, instanceID, seq), text)

/-- The groups of a match of `pendingNameRe`. -/
structure PendingMatch where
  stream : Stream
  instanceID : Text
  seq : Text
  ts : Text
  deriving DecidableEq, Repr

def pendingNameRe (name : Text) : Option PendingMatch := do
  let ((stream, instanceID, seq), text) ← scanStem name
  let text ← Scan.literal pendingMark text
  let (day, text) ← Scan.exactly 8 Char.isDigit text
  let text ← Scan.literal ['T'] text
  let (clock, text) ← Scan.exactly 6 Char.isDigit text
  let text ← Scan.literal ndjson text
  if text = [] then return ⟨stream, instanceID, seq, day ++ 'T' :: clock⟩ else none

def activeNameRe (name : Text) : Bool :=
  match scanStem name with
  | some (_, text) => text = ndjson
  | none => false

inductive NameError where
  | unparseable (name : Text)
  | badTimestamp (name : Text)
  deriving DecidableEq, Repr

def ndjsonGz : Text := ndjson ++ ['.', 'g', 'z']

def bucketKey (logPrefix : Text) (stream : Stream) (moment : Moment) (instanceID seq : Text) : Text :=
  logPrefix ++ ('/' :: (stream.text ++ ('/' :: (moment.date.format ['/'] ++
    ('/' :: (moment.clock ++ ('-' :: (instanceID ++ ('-' :: (seq ++ ndjsonGz))))))))))

def bucketKeyForPending (logPrefix name : Text) : Except NameError Text :=
  match pendingNameRe name with
  | none => .error (.unparseable name)
  | some found =>
    match Moment.parse found.ts with
    | none => .error (.badTimestamp name)
    | some moment => .ok (bucketKey logPrefix found.stream moment found.instanceID found.seq)

/-! ### What the expressions make of the names -/

variable {origin origin' : Origin} {ts ts' : Moment} {logPrefix : Text}

theorem scanStream_text (stream : Stream) (rest : Text) :
    scanStream (stream.text ++ rest) = some (stream, rest) := by
  cases stream with
  | activity => rw [scanStream, literal_append]
  | usage =>
    have other : literal Stream.activity.text (Stream.usage.text ++ rest) = none := by
      simp [literal, Stream.text]
    rw [scanStream, other, literal_append, map_some]

theorem scanStem_stem (origin : Origin) (rest : Text) :
    scanStem (origin.stem ++ rest) =
      (exactly 6 Char.isDigit (padded 6 origin.seq ++ rest)).map fun read =>
        ((origin.stream, origin.instanceID.text, read.1), read.2) := by
  have instanceRun (after : Text) :
      run isHex (origin.instanceID.text ++ '-' :: after) =
        some (origin.instanceID.text, '-' :: after) :=
    run_eq_some.mpr ⟨rfl, origin.instanceID.nonempty, origin.instanceID.hex,
      stops_cons rfl after⟩
  simp only [scanStem, Origin.stem, append_assoc, cons_append, scanStream_text,
    bind_eq_bind, bind_some, literal_cons, instanceRun, map_eq_bind]
  rfl

theorem isDigit_of_mem_day {c : Char} (past : 0 ≤ ts.date.year) (mem : c ∈ ts.date.format []) :
    c.isDigit = true := by
  simp only [Date.format, yearText, if_neg (not_lt.mpr past), append_nil,
    mem_append] at mem
  rcases mem with (year | month) | day
  · exact isDigit_of_mem_padded year
  · exact isDigit_of_mem_fixed month
  · exact isDigit_of_mem_fixed day

def Shippable (origin : Origin) (ts : Moment) : Prop := origin.seq < 10 ^ 6 ∧ ts.date.Short

instance (origin : Origin) (ts : Moment) : Decidable (Shippable origin ts) :=
  inferInstanceAs (Decidable (_ ∧ _))

theorem pendingNameRe_pendingName (shippable : Shippable origin ts) :
    pendingNameRe (pendingName origin ts) =
      some ⟨origin.stream, origin.instanceID.text, fixed 6 origin.seq, ts.stamp⟩ := by
  obtain ⟨fits, short⟩ := shippable
  have day (rest : Text) : exactly 8 Char.isDigit (ts.date.format [] ++ rest) =
      some (ts.date.format [], rest) :=
    exactly_append (Date.length_format short []) (fun _ => isDigit_of_mem_day short.1) rest
  have clock (rest : Text) : exactly 6 Char.isDigit (ts.clock ++ rest) =
      some (ts.clock, rest) :=
    exactly_append ts.length_clock (fun _ => Moment.isDigit_of_mem_clock) rest
  have last : literal ndjson ndjson = some [] := literal_append ndjson []
  simp [pendingNameRe, pendingName, scanStem_stem, padded_eq_fixed fits, scan_fixed,
    literal_append, Moment.stamp, day, literal_cons, clock, last]

theorem pendingNameRe_eq_none (not : ¬ Shippable origin ts) :
    pendingNameRe (pendingName origin ts) = none := by
  rw [eq_none_iff_forall_not_mem]
  intro found matched
  simp only [pendingNameRe, pendingName, scanStem_stem, mem_def, bind_eq_bind,
    bind_eq_some_iff, map_eq_some_iff, Prod.exists] at matched
  obtain ⟨_, _, _, after, ⟨seq, _, readSeq, split⟩, afterMark, mark, day, afterDay, readDay,
    afterT, t, -⟩ := matched
  obtain ⟨-, rfl⟩ := Prod.mk.inj split
  rw [literal_eq_some] at mark t
  -- The digits read end at a dot, so they are the whole sequence number.
  have marked (rest : Text) : Scan.Stops Char.isDigit (pendingMark ++ rest) :=
    stops_cons rfl _
  obtain ⟨seqLength, same⟩ := length_of_exactly (fun _ => isDigit_of_mem_padded)
    (marked _) readSeq (by rw [mark]; exact marked _)
  have fits := length_padded_iff.mp seqLength
  rw [mark, append_cancel_left_eq] at same
  rw [same, Moment.stamp, append_assoc] at readDay
  rw [t] at readDay
  -- A minus sign is not a digit.
  have past : 0 ≤ ts.date.year := by
    by_contra negative
    obtain ⟨cut, size, all⟩ := exactly_eq_some.mp readDay
    cases day with
    | nil => simp at size
    | cons c day =>
      have first := all c mem_cons_self
      simp only [Date.format, yearText, if_pos (not_le.mp negative), cons_append,
        cons.injEq] at cut
      rw [← cut.1] at first
      cases first
  -- The digits of the day end at the `T`, so they are the whole day.
  obtain ⟨dayLength, -⟩ := length_of_exactly (fun _ => isDigit_of_mem_day past)
    (stops_cons rfl _) readDay (stops_cons rfl _)
  simp only [Date.format, yearText, if_neg (not_lt.mpr past), append_nil,
    length_append, length_fixed] at dayLength
  have year : ts.date.year.toNat < 10 ^ 4 := length_padded_iff.mp (by omega)
  exact not ⟨fits, past, by omega⟩

theorem bucketKeyForPending_ok (shippable : Shippable origin ts) :
    bucketKeyForPending logPrefix (pendingName origin ts) =
      .ok (bucketKey logPrefix origin.stream ts origin.instanceID.text (fixed 6 origin.seq)) := by
  simp only [bucketKeyForPending, pendingNameRe_pendingName shippable,
    Moment.parse_stamp shippable.2]

theorem bucketKeyForPending_error (not : ¬ Shippable origin ts) :
    bucketKeyForPending logPrefix (pendingName origin ts) =
      .error (.unparseable (pendingName origin ts)) := by
  simp only [bucketKeyForPending, pendingNameRe_eq_none not]

theorem bucketKeyForPending_isOk_iff :
    (∃ key, bucketKeyForPending logPrefix (pendingName origin ts) = .ok key) ↔
      Shippable origin ts := by
  constructor
  · rintro ⟨key, accepted⟩
    by_contra not
    rw [bucketKeyForPending_error not] at accepted
    cases accepted
  · exact fun shippable => ⟨_, bucketKeyForPending_ok shippable⟩

/-! ### Names and keys say where a file comes from -/

theorem Stream.text_cut {stream stream' : Stream} {c : Char} {rest rest' : Text}
    (same : stream.text ++ c :: rest = stream'.text ++ c :: rest') :
    stream = stream' ∧ rest = rest' := by
  cases stream <;> cases stream' <;> simp_all [Stream.text]

theorem InstanceID.ext {left right : InstanceID} (same : left.text = right.text) :
    left = right := by
  cases left
  cases same
  rfl

theorem bucketKey_injective (shippable : Shippable origin ts) (shippable' : Shippable origin' ts')
    (same : bucketKey logPrefix origin.stream ts origin.instanceID.text (fixed 6 origin.seq) =
      bucketKey logPrefix origin'.stream ts' origin'.instanceID.text (fixed 6 origin'.seq)) :
    origin = origin' ∧ ts = ts' := by
  obtain ⟨fits, short⟩ := shippable
  obtain ⟨fits', short'⟩ := shippable'
  simp only [bucketKey, append_cancel_left_eq, cons.injEq, true_and] at same
  obtain ⟨streams, same⟩ := Stream.text_cut same
  obtain ⟨days, same⟩ := append_inj same
    (by rw [Date.length_format short, Date.length_format short'])
  obtain ⟨clocks, same⟩ := append_inj (cons.inj same).2 (by simp)
  obtain ⟨instances, same⟩ := append_inj' (cons.inj same).2 (by simp)
  have seqs := append_cancel_right (cons.inj same).2
  have sameOrigin : origin = origin' := by
    rw [Origin.mk.injEq]
    exact ⟨streams, InstanceID.ext instances, fixed_injective fits fits' seqs⟩
  have sameDay := Date.format_injective ['/'] short short' days
  exact ⟨sameOrigin, Moment.clock_injective sameDay clocks⟩

/-- The names of the files of two origins differ, however they go on after the stem. -/
theorem stem_injective {rest rest' : Text} (stops : Stops Char.isDigit rest)
    (stops' : Stops Char.isDigit rest')
    (same : origin.stem ++ rest = origin'.stem ++ rest') : origin = origin' := by
  simp only [Origin.stem, append_assoc, cons_append] at same
  obtain ⟨streams, same⟩ := Stream.text_cut same
  obtain ⟨instances, same⟩ := cut_unique (p := isHex) same origin.instanceID.hex
    origin'.instanceID.hex (stops_cons rfl _) (stops_cons rfl _)
  obtain ⟨seqs, -⟩ := cut_unique (cons.inj same).2 (fun _ => isDigit_of_mem_padded)
    (fun _ => isDigit_of_mem_padded) stops stops'
  rw [Origin.mk.injEq]
  refine ⟨streams, InstanceID.ext instances, ?_⟩
  have numbers := congrArg value seqs
  rwa [value_padded, value_padded] at numbers

end BucketVcs.Shiplog
