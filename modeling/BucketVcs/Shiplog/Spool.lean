import BucketVcs.Shiplog.Intake

/-! The spool directory and the bucket over every run of the log shipper: appending, rotation,
shipping, crashes and the adoption of what a crash left. -/

namespace BucketVcs.Shiplog

open Calendar Decimal Transition Option Function

abbrev Bytes := List UInt8

inductive FileName where
  | active (origin : Origin)
  | pending (origin : Origin) (ts : Moment)
  deriving DecidableEq, Repr

def FileName.origin : FileName → Origin
  | .active origin => origin
  | .pending origin _ => origin

def FileName.text : FileName → Text
  | .active origin => activeName origin
  | .pending origin ts => pendingName origin ts

theorem FileName.origin_of_text {name name' : FileName} (same : name.text = name'.text) :
    name.origin = name'.origin := by
  have active : Scan.Stops Char.isDigit ndjson := Scan.stops_cons rfl _
  have pending (rest : Text) : Scan.Stops Char.isDigit (pendingMark ++ rest) :=
    Scan.stops_cons rfl _
  cases name with
  | active origin =>
    cases name' with
    | active origin' => exact stem_injective active active same
    | pending origin' ts' => exact stem_injective active (pending _) same
  | pending origin ts =>
    cases name' with
    | active origin' => exact stem_injective (pending _) active same
    | pending origin' ts' => exact stem_injective (pending _) (pending _) same

/-- The name of an adopted file, as `adoptLeftovers` writes it. -/
def FileName.adopted (origin : Origin) (modTime : Moment) :
    { name : FileName // name.text = adoptedName (activeName origin) modTime } :=
  ⟨.pending origin modTime, (adoptedName_activeName origin modTime).symm⟩

/-- `streamState`: the last sequence number, whether a file is open, and the lines in it. -/
structure StreamState where
  seq : ℕ
  writing : Bool
  count : ℕ
  deriving DecidableEq, Repr

/-- One engine with its spool directory, the bucket, and the engines before it on the same
directory. -/
structure Spool where
  instanceID : InstanceID
  retired : List InstanceID
  distinct : instanceID ∉ retired
  /-- `New` has not returned. -/
  adopting : Bool
  streams : Stream → StreamState
  /-- `e.pending`, the files to ship. -/
  pending : List (Origin × Moment)
  files : FileName → Option Bytes
  bucket : Text → Option Bytes

namespace Spool

variable (spool : Spool)

def setStream (stream : Stream) (state : StreamState) : Spool :=
  { spool with streams := Function.update spool.streams stream state }

def setFile (name : FileName) (contents : Option Bytes) : Spool :=
  { spool with files := Function.update spool.files name contents }

def latest (stream : Stream) : Origin :=
  ⟨stream, spool.instanceID, (spool.streams stream).seq⟩

def openActive (stream : Stream) : Spool :=
  let next := spool.setStream stream ⟨(spool.streams stream).seq + 1, true, 0⟩
  let name := FileName.active (next.latest stream)
  next.setFile name (some ((next.files name).getD []))

def opened (stream : Stream) : Spool :=
  if (spool.streams stream).writing then spool else spool.openActive stream

def write (stream : Stream) (bytes : Bytes) : Spool :=
  let name := FileName.active (spool.latest stream)
  spool.setFile name ((spool.files name).map (· ++ bytes))

def close (stream : Stream) : Spool :=
  spool.setStream stream ⟨(spool.streams stream).seq, false, 0⟩

/-- `os.Rename` of an active file. -/
def rename (origin : Origin) (name : FileName) : Spool :=
  (spool.setFile name (spool.files (.active origin))).setFile (.active origin) none

/-- With `renamed` false `os.Rename` fails, and the file stays where it is. -/
def rotateStream (stream : Stream) (ts : Moment) (renamed : Bool) : Spool :=
  if renamed then
    let origin := spool.latest stream
    let moved := (spool.rename origin (.pending origin ts)).close stream
    { moved with pending := moved.pending ++ [(origin, ts)] }
  else spool.close stream

/-- `PutIfAbsent`; an object that exists counts as this file. -/
def put (key : Text) (contents : Bytes) : Spool :=
  { spool with
    bucket := Function.update spool.bucket key (some ((spool.bucket key).getD contents)) }

def forget (origin : Origin) (ts : Moment) : Spool :=
  { spool with pending := spool.pending.erase (origin, ts) }

end Spool

inductive SpoolAction where
  /-- `append` of a line. -/
  | append (stream : Stream) (line : Bytes)
  | openFails (stream : Stream)
  /-- A `Write` that fails after some bytes, and the rotation if there are lines before it. -/
  | tear (stream : Stream) (bytes : Bytes) (now : Moment) (renamed : Bool)
  | rotate (stream : Stream) (now : Moment) (renamed : Bool)
  /-- `shipOne` up to the PUT: the answer is lost, or the process dies before `removePending`. -/
  | upload (origin : Origin) (ts : Moment)
  /-- `shipOne` and `removePending`, and whether `os.Remove` succeeds. -/
  | ship (origin : Origin) (ts : Moment) (removed : Bool)
  /-- `enforceCap` drops a file, and whether `os.Remove` succeeds. -/
  | drop (origin : Origin) (ts : Moment) (removed : Bool)
  /-- The process dies and `New` begins. -/
  | restart (instanceID : InstanceID)
  /-- `adoptLeftovers` at one directory entry. -/
  | adopt (name : FileName) (modTime : Moment)
  | started

def Spool.shippable (logPrefix : Text) (spool : Spool) (origin : Origin) (ts : Moment) :
    Option (Text × Bytes) :=
  if (origin, ts) ∈ spool.pending then
    match bucketKeyForPending logPrefix (pendingName origin ts) with
    | .ok key => (spool.files (.pending origin ts)).map fun contents => (key, contents)
    | .error _ => none
  else none

def Spool.adopt (spool : Spool) (name : FileName) (modTime : Moment) : Option Spool :=
  match name, spool.files name with
  | _, none => none
  | .pending origin ts, some _ =>
    if (pendingNameRe (pendingName origin ts)).isSome then
      some { spool with pending := spool.pending ++ [(origin, ts)] }
    else some spool
  | .active origin, some contents =>
    if activeNameRe (activeName origin) then
      if contents = [] then some (spool.setFile (.active origin) none)
      else
        let renamed := spool.rename origin (FileName.adopted origin modTime)
        some { renamed with pending := renamed.pending ++ [(origin, modTime)] }
    else some spool

def Spool.removeIf (removed : Bool) (name : FileName) (spool : Spool) : Spool :=
  if removed then spool.setFile name none else spool

def Spool.next (logPrefix : Text) (spool : Spool) : SpoolAction → Option Spool
  | .append stream line =>
    if spool.adopting then none
    else
      let written := (spool.opened stream).write stream (line ++ [10])
      let state := written.streams stream
      some (written.setStream stream ⟨state.seq, state.writing, state.count + 1⟩)
  | .openFails stream =>
    let state := spool.streams stream
    if spool.adopting ∨ state.writing then none
    else some (spool.setStream stream ⟨state.seq + 1, false, state.count⟩)
  | .tear stream bytes now renamed =>
    if spool.adopting then none
    else
      let torn := (spool.opened stream).write stream bytes
      if 0 < (torn.streams stream).count then some (torn.rotateStream stream now renamed)
      else some (torn.close stream)
  | .rotate stream now renamed =>
    let state := spool.streams stream
    if ¬ spool.adopting ∧ state.writing ∧ 0 < state.count then
      some (spool.rotateStream stream now renamed)
    else none
  | .upload origin ts =>
    if spool.adopting then none
    else (spool.shippable logPrefix origin ts).map fun file => spool.put file.1 file.2
  | .ship origin ts removed =>
    if spool.adopting then none
    else (spool.shippable logPrefix origin ts).map fun file =>
      ((spool.put file.1 file.2).removeIf removed (.pending origin ts)).forget origin ts
  | .drop origin ts removed =>
    if ¬ spool.adopting ∧ (origin, ts) ∈ spool.pending then
      some ((spool.removeIf removed (.pending origin ts)).forget origin ts)
    else none
  | .restart instanceID =>
    if distinct : instanceID ∉ spool.instanceID :: spool.retired then
      some ⟨instanceID, spool.instanceID :: spool.retired, distinct, true,
        fun _ => ⟨0, false, 0⟩, [], spool.files, spool.bucket⟩
    else none
  | .adopt name modTime => if spool.adopting then spool.adopt name modTime else none
  | .started => if spool.adopting then some { spool with adopting := false } else none

def SpoolStep (logPrefix : Text) (spool : Spool) (action : SpoolAction) (after : Spool) : Prop :=
  spool.next logPrefix action = some after

def Spool.new (instanceID : InstanceID) : Spool :=
  ⟨instanceID, [], List.not_mem_nil, true, fun _ => ⟨0, false, 0⟩, [], fun _ => none, fun _ => none⟩

/-! ### What a step can do to the files and the bucket

A file is created under a number never used, written, renamed when it is complete, and shipped; from
the renaming on its contents stay. -/

structure Disk where
  used : Origin → Prop
  files : FileName → Option Bytes
  bucket : Text → Option Bytes

inductive Disk.Effect (logPrefix : Text) : Disk → Disk → Prop where
  | claim {disk used} (grows : ∀ origin, disk.used origin → used origin) :
      Effect logPrefix disk ⟨used, disk.files, disk.bucket⟩
  | create {disk used} (origin : Origin)
      (grows : ∀ origin, disk.used origin → used origin)
      (unused : ¬ disk.used origin) (claimed : used origin) (contents : Option Bytes) :
      Effect logPrefix disk
        ⟨used, Function.update disk.files (.active origin) contents, disk.bucket⟩
  | grow {disk} (origin : Origin) (bytes : Bytes) :
      Effect logPrefix disk ⟨disk.used,
        Function.update disk.files (.active origin)
          ((disk.files (.active origin)).map (· ++ bytes)),
        disk.bucket⟩
  | settle {disk} (origin : Origin) (ts : Moment) :
      Effect logPrefix disk ⟨disk.used,
        Function.update
          (Function.update disk.files (.pending origin ts) (disk.files (.active origin)))
          (.active origin) none,
        disk.bucket⟩
  | remove {disk} (name : FileName) :
      Effect logPrefix disk ⟨disk.used, Function.update disk.files name none, disk.bucket⟩
  | upload {disk origin ts contents key} (there : disk.files (.pending origin ts) = some contents)
      (named : bucketKeyForPending logPrefix (pendingName origin ts) = .ok key) :
      Effect logPrefix disk ⟨disk.used, disk.files,
        Function.update disk.bucket key (some ((disk.bucket key).getD contents))⟩

/-- The file of `origin` is complete: if it is still there, it is the pending one of `ts` with these
contents. -/
structure Disk.Settled (disk : Disk) (origin : Origin) (ts : Moment) (contents : Bytes) : Prop where
  used : disk.used origin
  closed : disk.files (.active origin) = none
  alone : ∀ ts' contents', disk.files (.pending origin ts') = some contents' →
    ts' = ts ∧ contents' = contents

structure Disk.Sound (logPrefix : Text) (disk : Disk) : Prop where
  used : ∀ name contents, disk.files name = some contents → disk.used name.origin
  pending : ∀ origin ts contents, disk.files (.pending origin ts) = some contents →
    disk.Settled origin ts contents
  stored : ∀ origin ts key contents,
    bucketKeyForPending logPrefix (pendingName origin ts) = .ok key →
    disk.bucket key = some contents → disk.Settled origin ts contents

section Effects

variable {logPrefix key : Text} {disk disk' : Disk} {origin origin' : Origin} {ts ts' : Moment}
variable {contents : Bytes}

theorem bucketKeyForPending_injective
    (named : bucketKeyForPending logPrefix (pendingName origin ts) = .ok key)
    (named' : bucketKeyForPending logPrefix (pendingName origin' ts') = .ok key) :
    origin = origin' ∧ ts = ts' := by
  have shippable := bucketKeyForPending_isOk_iff.mp ⟨key, named⟩
  have shippable' := bucketKeyForPending_isOk_iff.mp ⟨key, named'⟩
  rw [bucketKeyForPending_ok shippable] at named
  rw [bucketKeyForPending_ok shippable', ← named] at named'
  exact bucketKey_injective shippable shippable' (Except.ok.inj named').symm

theorem Disk.Effect.settled (effect : Effect logPrefix disk disk')
    (settled : disk.Settled origin ts contents) : disk'.Settled origin ts contents := by
  obtain ⟨used, closed, alone⟩ := settled
  cases effect with
  | claim grows => exact ⟨grows origin used, closed, alone⟩
  | create new grows unused claimed initial =>
    have other : origin ≠ new := fun same => unused (same ▸ used)
    refine ⟨grows origin used, ?_, ?_⟩
    · simpa [other] using closed
    · simpa using alone
  | grow written bytes =>
    refine ⟨used, ?_, ?_⟩
    · by_cases same : origin = written
      · subst same
        simp [closed]
      · simpa [same] using closed
    · simpa using alone
  | settle renamed now =>
    refine ⟨used, ?_, ?_⟩
    · by_cases same : origin = renamed
      · subst same
        simp
      · simpa [same] using closed
    · intro ts' contents' found
      simp only [update_apply, reduceCtorEq, if_false, FileName.pending.injEq] at found
      split at found
      case isTrue same =>
        rw [← same.1, closed] at found
        cases found
      case isFalse => exact alone ts' contents' found
  | remove name =>
    refine ⟨used, ?_, ?_⟩
    · simp only [update_apply]
      split
      · rfl
      · exact closed
    · intro ts' contents' found
      simp only [update_apply] at found
      split at found
      · cases found
      · exact alone ts' contents' found
  | upload there named => exact ⟨used, closed, alone⟩

theorem Disk.Effect.file_used (effect : Effect logPrefix disk disk') (sound : disk.Sound logPrefix)
    {name : FileName} (found : disk'.files name = some contents) : disk'.used name.origin := by
  cases effect with
  | claim grows => exact grows _ (sound.used name contents found)
  | create new grows unused claimed initial =>
    simp only [update_apply] at found
    split at found
    case isTrue same => rw [same]; exact claimed
    case isFalse => exact grows _ (sound.used name contents found)
  | grow written bytes =>
    simp only [update_apply] at found
    split at found
    case isTrue same =>
      obtain ⟨before, there, -⟩ := map_eq_some_iff.mp found
      rw [same]
      exact sound.used _ _ there
    case isFalse => exact sound.used name contents found
  | settle renamed now =>
    simp only [update_apply] at found
    split at found
    · cases found
    · split at found
      case isTrue same =>
        rw [same]
        exact sound.used (.active renamed) _ found
      case isFalse => exact sound.used name contents found
  | remove name' =>
    simp only [update_apply] at found
    split at found
    · cases found
    · exact sound.used name contents found
  | upload there named => exact sound.used name contents found

theorem Disk.Effect.pending_settled (effect : Effect logPrefix disk disk')
    (sound : disk.Sound logPrefix) (found : disk'.files (.pending origin ts) = some contents) :
    disk'.Settled origin ts contents := by
  have before (there : disk.files (.pending origin ts) = some contents) :
      disk'.Settled origin ts contents := effect.settled (sound.pending origin ts contents there)
  cases effect with
  | claim grows | upload there named => exact before found
  | create new grows unused claimed initial | grow written bytes =>
    exact before (by simpa using found)
  | settle renamed now =>
    by_cases same : origin = renamed ∧ ts = now
    · obtain ⟨rfl, rfl⟩ := same
      simp only [update_apply] at found
      refine ⟨sound.used _ _ found, by simp, ?_⟩
      -- A pending file of this origin from before would have closed the active one.
      intro ts' contents' there
      simp only [update_apply, reduceCtorEq, if_false, FileName.pending.injEq,
        true_and] at there
      split at there
      case isTrue same => exact ⟨same, some.inj (there.symm.trans found)⟩
      case isFalse =>
        have closed := (sound.pending origin ts' contents' there).closed
        rw [closed] at found
        cases found
    · simp only [update_apply, FileName.pending.injEq,
        same] at found
      exact before found
  | remove name =>
    simp only [update_apply] at found
    split at found
    · cases found
    · exact before found

theorem Disk.Effect.stored_settled (effect : Effect logPrefix disk disk')
    (sound : disk.Sound logPrefix)
    (named : bucketKeyForPending logPrefix (pendingName origin ts) = .ok key)
    (found : disk'.bucket key = some contents) : disk'.Settled origin ts contents := by
  have before (there : disk.bucket key = some contents) : disk'.Settled origin ts contents :=
    effect.settled (sound.stored origin ts key contents named there)
  cases effect with
  | claim grows | create new grows unused claimed initial | grow written bytes
  | settle renamed now | remove name => exact before found
  | @upload origin' ts' uploaded key' there named' =>
    simp only [update_apply] at found
    split at found
    case isTrue same =>
      subst same
      obtain ⟨rfl, rfl⟩ := bucketKeyForPending_injective named named'
      rcases eq_none_or_eq_some (disk.bucket key) with absent | ⟨old, stored⟩
      · rw [absent] at found
        rw [← some.inj found]
        exact Effect.settled (.upload there named) (sound.pending origin ts uploaded there)
      · rw [stored] at found
        exact before (stored.trans found)
    case isFalse => exact before found

theorem Disk.Effect.sound (effect : Effect logPrefix disk disk') (sound : disk.Sound logPrefix) :
    disk'.Sound logPrefix :=
  ⟨fun _ _ found => effect.file_used sound found,
    fun _ _ _ found => effect.pending_settled sound found,
    fun _ _ _ _ named found => effect.stored_settled sound named found⟩

/-- Several effects, one after the other. -/
abbrev Disk.Effects (logPrefix : Text) : Disk → Disk → Prop :=
  Relation.ReflTransGen (Disk.Effect logPrefix)

theorem Disk.Effects.settled (effects : Effects logPrefix disk disk')
    (settled : disk.Settled origin ts contents) : disk'.Settled origin ts contents := by
  induction effects with
  | refl => exact settled
  | tail _ last ih => exact last.settled ih

theorem Disk.Effects.sound (effects : Effects logPrefix disk disk')
    (sound : disk.Sound logPrefix) : disk'.Sound logPrefix := by
  induction effects with
  | refl => exact sound
  | tail _ last ih => exact last.sound ih

end Effects

/-! ### The steps of the engine -/

def Spool.disk (spool : Spool) : Disk where
  used origin := origin.instanceID ∈ spool.retired ∨
    (origin.instanceID = spool.instanceID ∧ origin.seq ≤ (spool.streams origin.stream).seq)
  files := spool.files
  bucket := spool.bucket

section Steps

variable {logPrefix : Text} {spool after : Spool} {stream : Stream}

open Disk (Effect Effects)

variable {state : StreamState}

theorem used_setStream (more : (spool.streams stream).seq ≤ state.seq)
    {origin : Origin} (used : spool.disk.used origin) :
    (spool.setStream stream state).disk.used origin := by
  rcases used with old | ⟨mine, seq⟩
  · exact .inl old
  · refine .inr ⟨mine, ?_⟩
    simp only [Spool.setStream, update_apply]
    split
    case isTrue same => rw [same] at seq; omega
    case isFalse => exact seq

theorem effect_setStream (more : (spool.streams stream).seq ≤ state.seq) :
    Effect logPrefix spool.disk (spool.setStream stream state).disk :=
  .claim fun _ => used_setStream more

theorem effect_close : Effect logPrefix spool.disk (spool.close stream).disk :=
  effect_setStream le_rfl

theorem effect_openActive : Effect logPrefix spool.disk (spool.openActive stream).disk := by
  have more : (spool.streams stream).seq ≤
      (⟨(spool.streams stream).seq + 1, true, 0⟩ : StreamState).seq := Nat.le_succ _
  let counted := spool.setStream stream ⟨(spool.streams stream).seq + 1, true, 0⟩
  have seq : (counted.latest stream).seq = (spool.streams stream).seq + 1 := by
    simp [counted, Spool.latest, Spool.setStream]
  refine .create (counted.latest stream) (fun _ => used_setStream more) ?_ ?_ _
  · rintro (old | ⟨-, small⟩)
    · exact spool.distinct old
    · rw [seq] at small
      exact Nat.not_succ_le_self _ small
  · exact .inr ⟨rfl, le_rfl⟩

theorem effects_opened : Effects logPrefix spool.disk (spool.opened stream).disk := by
  unfold Spool.opened
  split
  · exact .refl
  · exact .single effect_openActive

theorem effect_write (bytes : Bytes) : Effect logPrefix spool.disk (spool.write stream bytes).disk :=
  .grow (spool.latest stream) bytes

theorem effects_written (bytes : Bytes) :
    Effects logPrefix spool.disk ((spool.opened stream).write stream bytes).disk :=
  effects_opened.tail (effect_write bytes)

theorem effect_rename (origin : Origin) (ts : Moment) :
    Effect logPrefix spool.disk (spool.rename origin (.pending origin ts)).disk :=
  .settle origin ts

theorem effects_rotateStream (ts : Moment) (renamed : Bool) :
    Effects logPrefix spool.disk (spool.rotateStream stream ts renamed).disk := by
  unfold Spool.rotateStream
  split
  · exact (Relation.ReflTransGen.single (effect_rename (spool.latest stream) ts)).tail effect_close
  · exact .single effect_close

theorem effects_removeIf (removed : Bool) (name : FileName) :
    Effects logPrefix spool.disk (spool.removeIf removed name).disk := by
  unfold Spool.removeIf
  split
  · exact .single (.remove name)
  · exact .refl

theorem effect_put {origin : Origin} {ts : Moment} {key : Text} {contents : Bytes}
    (found : spool.shippable logPrefix origin ts = some (key, contents)) :
    Effect logPrefix spool.disk (spool.put key contents).disk := by
  unfold Spool.shippable at found
  split at found
  · split at found
    case h_1 key' named =>
      obtain ⟨contents', there, same⟩ := map_eq_some_iff.mp found
      obtain ⟨rfl, rfl⟩ := Prod.mk.inj same
      exact .upload there named
    case h_2 => cases found
  · cases found

theorem effects_adopt {name : FileName} {modTime : Moment}
    (adopted : spool.adopt name modTime = some after) : Effects logPrefix spool.disk after.disk := by
  unfold Spool.adopt at adopted
  split at adopted
  · cases adopted
  · split at adopted <;> cases adopted <;> exact .refl
  · split at adopted
    · split at adopted
      · cases adopted
        exact .single (.remove _)
      · cases adopted
        exact .single (effect_rename _ modTime)
    · cases adopted
      exact .refl

/-- Every step of the engine is made of the effects. -/
theorem SpoolStep.effects {action : SpoolAction} (taken : SpoolStep logPrefix spool action after) :
    Effects logPrefix spool.disk after.disk := by
  cases action with
  | append stream line =>
    simp only [SpoolStep, Spool.next, ite_none_left_eq_some, some.injEq] at taken
    rw [← taken.2]
    exact (effects_written _).tail (effect_setStream le_rfl)
  | openFails stream =>
    simp only [SpoolStep, Spool.next, ite_none_left_eq_some, some.injEq] at taken
    rw [← taken.2]
    exact .single (effect_setStream (Nat.le_succ _))
  | tear stream bytes now renamed =>
    simp only [SpoolStep, Spool.next, ite_none_left_eq_some] at taken
    obtain ⟨-, taken⟩ := taken
    split at taken
    · cases taken
      exact (effects_written bytes).trans (effects_rotateStream now renamed)
    · cases taken
      exact (effects_written bytes).tail effect_close
  | rotate stream now renamed =>
    simp only [SpoolStep, Spool.next, ite_none_right_eq_some, some.injEq] at taken
    rw [← taken.2]
    exact effects_rotateStream now renamed
  | upload origin ts =>
    simp only [SpoolStep, Spool.next, ite_none_left_eq_some,
      map_eq_some_iff] at taken
    obtain ⟨-, ⟨key, contents⟩, found, rfl⟩ := taken
    exact .single (effect_put found)
  | ship origin ts removed =>
    simp only [SpoolStep, Spool.next, ite_none_left_eq_some,
      map_eq_some_iff] at taken
    obtain ⟨-, ⟨key, contents⟩, found, rfl⟩ := taken
    exact (Relation.ReflTransGen.single (effect_put found)).trans (effects_removeIf removed _)
  | drop origin ts removed =>
    simp only [SpoolStep, Spool.next, ite_none_right_eq_some, some.injEq] at taken
    rw [← taken.2]
    exact effects_removeIf removed _
  | restart instanceID =>
    simp only [SpoolStep, Spool.next, dite_none_right_eq_some, some.injEq] at taken
    obtain ⟨distinct, rfl⟩ := taken
    refine .single (.claim fun origin used => ?_)
    rcases used with old | ⟨mine, -⟩
    · exact .inl (List.mem_cons_of_mem _ old)
    · rw [mine]
      exact .inl List.mem_cons_self
  | adopt name modTime =>
    simp only [SpoolStep, Spool.next, ite_none_right_eq_some] at taken
    exact effects_adopt taken.2
  | started =>
    simp only [SpoolStep, Spool.next, ite_none_right_eq_some, some.injEq] at taken
    rw [← taken.2]
    exact .refl

end Steps

theorem new_sound (logPrefix : Text) (first : InstanceID) :
    (Spool.new first).disk.Sound logPrefix where
  used := by intro name contents found; cases found
  pending := by intro origin ts contents found; cases found
  stored := by intro origin ts key contents named found; cases found

section Runs

variable {logPrefix : Text} {start spool : Spool} {events : List (Event Spool SpoolAction)}

theorem effects_of_run (run : Run (SpoolStep logPrefix) start events spool) :
    Disk.Effects logPrefix start.disk spool.disk := by
  induction run with
  | nil => exact .refl
  | next _ taken ih => exact ih.trans taken.effects

/-- A pending file can be shipped exactly when its sequence number and the year of its time stamp
have the widths of the expression. Files of one key have the same contents, also when one of them
is gone before the other is there, and an object that a file finds at its key is that file. -/
theorem rotated_files_ship_apart (logPrefix : Text) (first : InstanceID)
    {earlier later : List (Event Spool SpoolAction)} {middle last : Spool}
    (run : Run (SpoolStep logPrefix) (Spool.new first) earlier middle)
    (rest : Run (SpoolStep logPrefix) middle later last) :
    (∀ origin ts contents, middle.files (.pending origin ts) = some contents →
      ((∃ key, bucketKeyForPending logPrefix (pendingName origin ts) = .ok key) ↔
        origin.seq ≤ 999999 ∧ 0 ≤ ts.date.year ∧ ts.date.year ≤ 9999)) ∧
    (∀ origin ts contents origin' ts' contents' key,
      middle.files (.pending origin ts) = some contents →
      last.files (.pending origin' ts') = some contents' →
      bucketKeyForPending logPrefix (pendingName origin ts) = .ok key →
      bucketKeyForPending logPrefix (pendingName origin' ts') = .ok key → contents = contents') ∧
    (∀ origin ts contents key stored, middle.files (.pending origin ts) = some contents →
      bucketKeyForPending logPrefix (pendingName origin ts) = .ok key →
      middle.bucket key = some stored → stored = contents) := by
  have sound := (effects_of_run run).sound (new_sound logPrefix first)
  refine ⟨?_, ?_, ?_⟩
  · intro origin ts contents _
    rw [bucketKeyForPending_isOk_iff]
    exact and_congr_left' (Nat.lt_succ_iff (m := origin.seq) (n := 999999))
  · intro origin ts contents origin' ts' contents' key there there' named named'
    obtain ⟨rfl, rfl⟩ := bucketKeyForPending_injective named named'
    have settled := (effects_of_run rest).settled (sound.pending origin ts contents there)
    exact (settled.alone ts contents' there').2.symm
  · intro origin ts contents key stored there named found
    exact ((sound.stored origin ts key stored named found).alone ts contents there).2.symm

end Runs

/-! ### Samples -/

def sampleInstance : InstanceID := ⟨['0', 'a'], List.cons_ne_nil _ _, List.all_eq_true.mp rfl⟩

def sampleNoon : Moment :=
  ⟨⟨2026, 6, 1, by decide, by decide, by decide, by decide⟩, 12, 0, 0, by decide, by decide,
    by decide⟩

def sampleFile (seq : ℕ) : Origin := ⟨.activity, sampleInstance, seq⟩

theorem sampleFile_of_text : (FileName.pending (sampleFile 1) sampleNoon).origin = sampleFile 1 :=
  @FileName.origin_of_text _ (.pending (sampleFile 1) sampleNoon) rfl

theorem first_file_ships_once : ∃ events spool,
    Run (SpoolStep []) (Spool.new sampleInstance) events spool ∧
      spool.files (.pending (sampleFile 1) sampleNoon) = some [97, 10] ∧
      ∀ key stored, bucketKeyForPending [] (pendingName (sampleFile 1) sampleNoon) = .ok key →
        spool.bucket key = some stored → stored = [97, 10] := by
  obtain ⟨events, spool, run, there⟩ := Run.exists_of_play (Spool.next [])
    (.new sampleInstance)
    [.started, .append .activity [97], .rotate .activity sampleNoon true,
      .upload (sampleFile 1) sampleNoon]
    (P := fun _ spool => spool.files (.pending (sampleFile 1) sampleNoon) = some [97, 10])
    (by decide +kernel)
  exact ⟨events, spool, run, there,
    fun key stored named => (rotated_files_ship_apart [] sampleInstance run .nil).2.2 _ _ _ key
      stored there named⟩

def Idle (count : ℕ) (spool : Spool) : Prop :=
  spool.adopting = false ∧ spool.instanceID = sampleInstance ∧
    spool.streams .activity = ⟨count, false, 0⟩

attribute [local simp] Spool.setFile Spool.openActive Spool.opened Spool.write

theorem rotates_once {logPrefix : Text} {count : ℕ} {start spool : Spool}
    {events : List (Event Spool SpoolAction)} (idle : Idle count spool)
    (run : Run (SpoolStep logPrefix) start events spool) :
    ∃ events' after contents, Run (SpoolStep logPrefix) start events' after ∧
      Idle (count + 1) after ∧
      after.files (.pending (sampleFile (count + 1)) sampleNoon) = some contents := by
  obtain ⟨here, mine, state⟩ := idle
  have appended : ∃ written,
      SpoolStep logPrefix spool (.append .activity []) written ∧ written.adopting = false ∧
        written.instanceID = sampleInstance ∧
        written.streams .activity = ⟨count + 1, true, 1⟩ ∧
        (written.files (.active (sampleFile (count + 1)))).isSome = true := by
    refine ⟨_, (if_neg (by simp [here]) : spool.next logPrefix (.append .activity []) = _),
      ?_, ?_, ?_, ?_⟩
    · simp [Spool.setStream, state, here]
    · simp [Spool.setStream, state, mine]
    · simp [Spool.setStream, state]
    · simp [Spool.setStream, state, Spool.latest, sampleFile, mine]
  obtain ⟨written, first, here', mine', state', found⟩ := appended
  obtain ⟨contents, there⟩ := isSome_iff_exists.mp found
  have latest : written.latest .activity = sampleFile (count + 1) := by
    simp [Spool.latest, sampleFile, state', mine']
  have rotated : SpoolStep logPrefix written (.rotate .activity sampleNoon true)
      (written.rotateStream .activity sampleNoon true) := by
    simp [SpoolStep, Spool.next, here', state']
  refine ⟨_, _, contents, (run.next first).next rotated, ⟨here', mine', ?_⟩, ?_⟩
  · simp [Spool.rotateStream, Spool.close, Spool.setStream, Spool.rename, state']
  · simp [Spool.rotateStream, Spool.close, Spool.setStream, Spool.rename, latest, there]

theorem rotates (logPrefix : Text) (count : ℕ) : ∃ events spool,
    Run (SpoolStep logPrefix) (Spool.new sampleInstance) events spool ∧ Idle count spool := by
  induction count with
  | zero =>
    have started : SpoolStep logPrefix (.new sampleInstance) .started
        { Spool.new sampleInstance with adopting := false } := rfl
    exact ⟨_, _, Run.nil.next started, rfl, rfl, rfl⟩
  | succ count ih =>
    obtain ⟨events, spool, run, idle⟩ := ih
    obtain ⟨events', after, _, run', idle', -⟩ := rotates_once idle run
    exact ⟨events', after, run', idle'⟩

/-- The millionth file of a stream cannot be shipped. -/
theorem millionth_file_never_ships : ∃ events spool contents,
    Run (SpoolStep []) (Spool.new sampleInstance) events spool ∧
      spool.files (.pending (sampleFile 1000000) sampleNoon) = some contents ∧
      bucketKeyForPending [] (pendingName (sampleFile 1000000) sampleNoon) =
        .error (.unparseable (pendingName (sampleFile 1000000) sampleNoon)) := by
  obtain ⟨events, spool, run, idle⟩ := rotates [] 999999
  obtain ⟨events', after, contents, run', -, there⟩ := rotates_once idle run
  refine ⟨events', after, contents, run', there, bucketKeyForPending_error ?_⟩
  exact fun shippable => absurd shippable.1 (by decide)

end BucketVcs.Shiplog
