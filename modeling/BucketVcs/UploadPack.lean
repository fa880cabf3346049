import Mathlib.Data.List.DropRight
import BucketVcs.Exporter
import BucketVcs.Pktline
import BucketVcs.Reachability

/-! `uploadpack.serveFetch` on an open mirror: which wants are accepted, which haves are
acknowledged and which objects are sent. -/

namespace BucketVcs.UploadPack

open Manifest Importer Exporter Results List

inductive Kind where
  | commit
  | tag
  | tree
  | blob
  deriving DecidableEq, Repr

/-- What came out of `pack-objects`, and whether it ended well. -/
structure PackStream where
  objects : List OID
  isWhole : Bool
  deriving DecidableEq

/-- What is assumed of git: the kind of an object, that `rev-list --objects .. --not --all`
prints what the given ids reach and the refs do not, and that `pack-objects --revs` packs
nothing but what the wants reach and, with `--include-tag`, tags the refs reach. A run of
either may fail, the latter at any point of the stream. -/
structure Tools (git : Git) where
  kind : OID → Kind
  revListNotAll : Repository → List OID → Option (List OID)
  packObjects : Repository → List OID → List OID → Bool → Option PackID → Option PackStream
  unreached : ∀ bare oids out, revListNotAll bare oids = some out → ∀ oid, oid ∈ out ↔
    (∃ tip ∈ oids, Writers.Reach git tip oid) ∧ ¬ Writers.ReachedFrom git bare.refs oid
  packed : ∀ bare wants haves tags kept out, packObjects bare wants haves tags kept = some out →
    ∀ oid ∈ out.objects, (∃ want ∈ wants, Writers.Reach git want oid) ∨
      (tags = true ∧ Writers.ReachedFrom git bare.refs oid)

structure FetchRequest where
  wants : List OID
  haves : List OID
  isDone : Bool
  includeTag : Bool
  /-- One of the shallow and deepen arguments was sent. -/
  deepens : Bool

inductive Error where
  | tooManyWants (count : Nat)
  | tooManyHaves (count : Nat)
  | notOurRef (oid : OID)
  | wantKind (oid : OID) (kind : Kind)
  | reachabilityCheck
  | haveReachabilityCheck
  | deepenUnsupported
  | packURIGate
  | packObjects
  deriving DecidableEq, Repr

/-- What goes to the client: the acknowledged haves, the others, whether `ready` is sent,
the pack a packfile-uris section names, and what the packfile section has of its pack; one
that is not whole ends with a fatal message. -/
structure Response where
  commons : List OID
  unknown : List OID
  isReady : Bool
  packURI : Option PackID
  pack : Option PackStream
  deriving DecidableEq

def maxWants : Nat := 256
def maxHaves : Nat := 256

def dedupOIDs (oids : List OID) : List OID := oids.foldl (fun out oid =>
  if oid ∈ out then out else out ++ [oid]) []

variable {git : Git} (tools : Tools git) (bare : Repository)

def objectKind (oid : OID) : Option Kind :=
  if oid ∈ bare.objects then some (tools.kind oid) else none

def isTip : Kind → Bool
  | .commit => true
  | .tag => true
  | _ => false

def checkWant (oid : OID) : Except Error Unit :=
  match objectKind tools bare oid with
  | none => .error (.notOurRef oid)
  | some kind => require (isTip kind) (.wantKind oid kind)

/-- No want may reach an object that the refs of the bare do not reach. -/
def checkWants (wants : List OID) : Except Error Unit := do
  wants.forM (checkWant tools bare)
  match tools.revListNotAll bare wants with
  | none => .error .reachabilityCheck
  | some [] => .ok ()
  | some (oid :: _) => .error (.notOurRef oid)

def isCandidate (oid : OID) : Bool := ((objectKind tools bare oid).map isTip).getD false

/-- The haves that are acknowledged, commits and tags of the bare that its refs reach, and
the others. -/
def splitHaves (haves : List OID) : Except Error (List OID × List OID) :=
  match haves.filter (isCandidate tools bare) with
  | [] => .ok ([], haves)
  | candidate :: more =>
    match tools.revListNotAll bare (candidate :: more) with
    | none => .error .haveReachabilityCheck
    | some leaked => .ok ((candidate :: more).filter (· ∉ leaked),
        haves.filter (!isCandidate tools bare ·) ++ (candidate :: more).filter (· ∈ leaked))

/-- `advertised` is what the packfile-uris gate comes to. -/
def serveFetch (advertised : Except Error (Option PackID)) (request : FetchRequest) :
    Except Error Response := do
  require (request.wants.length ≤ maxWants) (.tooManyWants request.wants.length)
  require (request.haves.length ≤ maxHaves) (.tooManyHaves request.haves.length)
  let wants := dedupOIDs request.wants
  let haves := dedupOIDs request.haves
  checkWants tools bare wants
  require (!request.deepens) .deepenUnsupported
  let (commons, unknown) ← splitHaves tools bare haves
  let isReady := decide (commons ≠ []) && request.isDone
  if decide (haves ≠ []) && !request.isDone then .ok ⟨commons, unknown, isReady, none, none⟩
  else
    let kept ← (if haves = [] then advertised else .ok none : Except Error (Option PackID))
    match tools.packObjects bare wants commons request.includeTag kept with
    | none =>
      -- the acknowledgments are out by then, if there were haves
      if haves = [] then .error .packObjects
      else .ok ⟨commons, unknown, isReady, none, some ⟨[], false⟩⟩
    | some stream => .ok ⟨commons, unknown, isReady, kept, some stream⟩

variable {tools bare}

theorem mem_dedupOIDs {oids : List OID} {oid : OID} : oid ∈ dedupOIDs oids ↔ oid ∈ oids := by
  have general : ∀ (rest out : List OID), oid ∈ rest.foldl (fun out oid =>
      if oid ∈ out then out else out ++ [oid]) out ↔ oid ∈ out ∨ oid ∈ rest := by
    intro rest
    induction rest with
    | nil => simp
    | cons head tail ih =>
      intro out
      rw [foldl_cons, ih]
      by_cases seen : head ∈ out
      · rw [if_pos seen, mem_cons]
        constructor
        · tauto
        · rintro (old | rfl | later)
          · exact .inl old
          · exact .inl seen
          · exact .inr later
      · rw [if_neg seen]
        simp [or_assoc]
  simpa [dedupOIDs] using general oids []

theorem checkWants_ok {wants : List OID} (passed : checkWants tools bare wants = .ok ()) :
    ∀ oid, (∃ want ∈ wants, Writers.Reach git want oid) → Writers.ReachedFrom git bare.refs oid := by
  obtain ⟨⟨⟩, -, listed⟩ := bind_ok passed
  intro oid reached
  cases found : tools.revListNotAll bare wants with
  | none =>
    rw [found] at listed
    cases listed
  | some out =>
    rw [found] at listed
    cases out with
    | cons first rest => cases listed
    | nil =>
      by_contra hidden
      exact absurd ((tools.unreached _ _ _ found oid).mpr ⟨reached, hidden⟩) not_mem_nil

theorem splitHaves_ok {haves commons unknown : List OID}
    (passed : splitHaves tools bare haves = .ok (commons, unknown)) :
    ∀ oid ∈ commons, Writers.ReachedFrom git bare.refs oid := by
  intro oid member
  unfold splitHaves at passed
  split at passed
  · cases passed
    cases member
  · split at passed
    · cases passed
    · next leaked found =>
        cases passed
        obtain ⟨inside, kept⟩ := mem_filter.mp member
        by_contra hidden
        have listed := (tools.unreached _ _ _ found oid).mpr ⟨⟨oid, inside, .refl⟩, hidden⟩
        exact absurd listed (by simpa using kept)

/-- Every accepted want, acknowledged have and object of the pack. -/
structure Disclosed (request : FetchRequest) (response : Response) (holds : OID → Prop) : Prop where
  wants : ∀ oid ∈ request.wants, holds oid
  commons : ∀ oid ∈ response.commons, holds oid
  sent : ∀ stream, response.pack = some stream → ∀ oid ∈ stream.objects, holds oid

variable {advertised : Except Error (Option PackID)} {request : FetchRequest} {response : Response}

theorem Disclosed.mono {holds holds' : OID → Prop}
    (disclosed : Disclosed request response holds) (weaker : ∀ oid, holds oid → holds' oid) :
    Disclosed request response holds' :=
  ⟨fun oid member => weaker oid (disclosed.wants oid member),
    fun oid member => weaker oid (disclosed.commons oid member),
    fun stream sent oid member => weaker oid (disclosed.sent stream sent oid member)⟩

/-- Everything an answered fetch discloses is reachable from the refs of the bare. -/
theorem serveFetch_ok (served : serveFetch tools bare advertised request = .ok response) :
    Disclosed request response (Writers.ReachedFrom git bare.refs) := by
  obtain ⟨⟨⟩, -, served⟩ := bind_ok served
  obtain ⟨⟨⟩, -, served⟩ := bind_ok served
  obtain ⟨⟨⟩, wanted, served⟩ := bind_ok served
  obtain ⟨⟨⟩, -, served⟩ := bind_ok served
  obtain ⟨⟨commons, unknown⟩, common, served⟩ := bind_ok served
  have reached := checkWants_ok wanted
  have wants : ∀ oid ∈ request.wants, Writers.ReachedFrom git bare.refs oid :=
    fun oid member => reached oid ⟨oid, mem_dedupOIDs.mpr member, .refl⟩
  dsimp only at served
  split at served
  · cases served
    exact ⟨wants, splitHaves_ok common, fun stream none => by cases none⟩
  · obtain ⟨kept, -, served⟩ := bind_ok served
    split at served
    · split at served
      · cases served
      · cases served
        refine ⟨wants, splitHaves_ok common, fun stream same => ?_⟩
        cases same
        simp
    · next stream packed =>
        cases served
        refine ⟨wants, splitHaves_ok common, fun sent same oid member => ?_⟩
        cases same
        rcases tools.packed _ _ _ _ _ _ packed oid member with below | ⟨-, tagged⟩
        · exact reached oid below
        · exact tagged

/-! The dispatch of a protocol v2 request: where the command line may stand among the leading
lines, and where the argument iterator of `v2proto` looks for it. -/

open BucketVcs.Pktline (Bytes Token)

def ascii (text : String) : Bytes := text.toList.map fun c => UInt8.ofNat c.toNat

def commandEq : Bytes := ascii "command="
def lsRefs : Bytes := ascii "ls-refs"
def fetch : Bytes := ascii "fetch"
def bundleURI : Bytes := ascii "bundle-uri"

def trimRight (payload : Bytes) : Bytes := payload.rdropWhile (· = 0x0A)

inductive DispatchError (ε : Type) where
  | eof
  | missingCommand
  | unsupported (cmdLine : Bytes)
  | emptyArgs
  | expectedCommand (expectCmd got : Bytes)
  | unexpectedToken (token : Token)
  | argument (cause : ε)
  deriving DecidableEq

inductive Served (σ : Type) where
  | lsRefs (args : σ)
  | fetch (args : σ)
  | bundleURI
  deriving DecidableEq

def findCommandLine : List Token → Option Bytes
  | .data payload :: tokens =>
    if commandEq <+: trimRight payload then some (trimRight payload) else findCommandLine tokens
  | _ => none

section Iterator

variable {σ ε : Type} (fn : σ → Bytes → Except ε σ)

def argLines : List Token → σ → Except (DispatchError ε) σ
  | [], args => .ok args
  | .flush :: _, args => .ok args
  | .data payload :: tokens, args =>
    match fn args (trimRight payload) with
    | .error cause => .error (.argument cause)
    | .ok args => argLines tokens args
  | token :: _, _ => .error (.unexpectedToken token)

def skipCapabilities : List Token → σ → Except (DispatchError ε) σ
  | [], args => .ok args
  | .flush :: _, args => .ok args
  | .data _ :: tokens, args => skipCapabilities tokens args
  | .delim :: tokens, args => argLines fn tokens args
  | token :: _, _ => .error (.unexpectedToken token)

def iterateArgs (expectCmd : Bytes) : List Token → σ → Except (DispatchError ε) σ
  | [], _ => .error .emptyArgs
  | .data payload :: tokens, args =>
    if trimRight payload = commandEq ++ expectCmd then skipCapabilities fn tokens args
    else .error (.expectedCommand expectCmd payload)
  | _, _ => .error (.expectedCommand expectCmd [])

end Iterator

variable {σ ε : Type} (parse : Bytes → σ → Bytes → Except ε σ) (init : σ)

/-- The dispatch of `Serve`, with what the argument lines of each command do as `parse`. -/
def serve (tokens : List Token) : Except (DispatchError ε) (Served σ) :=
  match tokens with
  | [] => .error .eof
  | .flush :: _ => .error .eof
  | _ =>
    match findCommandLine tokens with
    | none => .error .missingCommand
    | some cmdLine =>
      if cmdLine = commandEq ++ lsRefs then
        (iterateArgs (parse lsRefs) lsRefs tokens init).map .lsRefs
      else if cmdLine = commandEq ++ fetch then
        (iterateArgs (parse fetch) fetch tokens init).map .fetch
      else if cmdLine = commandEq ++ bundleURI then .ok .bundleURI
      else .error (.unsupported cmdLine)

/-- The command handled with the lines after the delimiter, wherever its own line stood. -/
def handled (command : Bytes) (args : List Bytes) : Except (DispatchError ε) (Served σ) :=
  let parsed := ((args.map trimRight).foldlM (parse command) init).mapError .argument
  if command = lsRefs then parsed.map .lsRefs
  else if command = fetch then parsed.map .fetch
  else if command = bundleURI then .ok .bundleURI
  else .error (.unsupported (commandEq ++ command))

/-- A request: leading lines with one command line, a delimiter, argument lines, and the flush
that may be missing. -/
structure Lines where
  before : List Bytes
  line : Bytes
  after : List Bytes
  args : List Bytes
  flushed : Bool
  capabilities : ∀ payload ∈ before ++ after, ¬ commandEq <+: trimRight payload
  command : Bytes
  selected : trimRight line = commandEq ++ command

namespace Lines

def tokens (r : Lines) : List Token :=
  (r.before ++ r.line :: r.after).map .data ++
    .delim :: (r.args.map .data ++ if r.flushed then [.flush] else [])

variable (r : Lines)

theorem findCommandLine_tokens : findCommandLine r.tokens = some (commandEq ++ r.command) := by
  have skipped (before : List Bytes) (rest : List Token)
      (clear : ∀ payload ∈ before, ¬ commandEq <+: trimRight payload) :
      findCommandLine (before.map .data ++ rest) = findCommandLine rest := by
    induction before with
    | nil => rfl
    | cons payload before ih =>
      rw [map_cons, cons_append, findCommandLine, if_neg (clear payload (by simp))]
      exact ih fun payload mem => clear payload (by simp [mem])
  rw [tokens, map_append, append_assoc,
    skipped _ _ fun payload mem => r.capabilities payload (by simp [mem]), map_cons,
    cons_append, findCommandLine, r.selected, if_pos (prefix_append ..)]

section

variable (fn : σ → Bytes → Except ε σ)

include fn

theorem argLines_args (args : List Bytes) (flushed : Bool) (s : σ) :
    argLines fn (args.map .data ++ if flushed then [.flush] else []) s =
      ((args.map trimRight).foldlM fn s).mapError .argument := by
  induction args generalizing s with
  | nil => cases flushed <;> rfl
  | cons payload args ih =>
    simp only [map_cons, cons_append, argLines, foldlM_cons]
    cases fn s (trimRight payload) with
    | error cause => rfl
    | ok next => exact ih next

theorem skipCapabilities_args (after : List Bytes) (rest : List Token) (s : σ) :
    skipCapabilities fn (after.map .data ++ .delim :: rest) s = argLines fn rest s := by
  induction after with
  | nil => rfl
  | cons payload after ih => exact ih

theorem iterateArgs_first (first : r.before = []) (s : σ) :
    iterateArgs fn r.command r.tokens s =
      ((r.args.map trimRight).foldlM fn s).mapError .argument := by
  rw [tokens, first, nil_append, map_cons, cons_append, iterateArgs,
    if_pos r.selected, skipCapabilities_args, argLines_args]

theorem iterateArgs_late (command : Bytes) (late : r.before ≠ []) (s : σ) :
    ∃ got, iterateArgs fn command r.tokens s = .error (.expectedCommand command got) := by
  obtain ⟨payload, before, split⟩ := exists_cons_of_ne_nil late
  refine ⟨payload, ?_⟩
  have other : trimRight payload ≠ commandEq ++ command := fun same =>
    r.capabilities payload (by simp [split]) (same ▸ prefix_append ..)
  rw [tokens, split, cons_append, map_cons, cons_append, iterateArgs, if_neg other]

end

theorem serve_tokens : serve parse init r.tokens =
    if r.command = lsRefs then (iterateArgs (parse lsRefs) lsRefs r.tokens init).map .lsRefs
    else if r.command = fetch then (iterateArgs (parse fetch) fetch r.tokens init).map .fetch
    else if r.command = bundleURI then .ok .bundleURI
    else .error (.unsupported (commandEq ++ r.command)) := by
  obtain ⟨payload, rest, lead⟩ : ∃ payload rest, r.tokens = .data payload :: rest := by
    unfold tokens
    cases r.before with
    | nil | cons payload before => exact ⟨_, _, rfl⟩
  have found := r.findCommandLine_tokens
  rw [lead] at found ⊢
  simp [serve, found]

end Lines

/-- A request is handled with the lines after its delimiter, whatever its arguments do, exactly
when its command line comes first or its command takes no arguments. -/
theorem dispatch_agrees_iff (r : Lines) :
    (∀ (σ ε : Type) (parse : Bytes → σ → Bytes → Except ε σ) (init : σ),
      serve parse init r.tokens = handled parse init r.command r.args) ↔
      r.before = [] ∨ r.command ≠ lsRefs ∧ r.command ≠ fetch := by
  constructor
  · intro agrees
    by_contra late
    rw [not_or, not_and_or, not_not, not_not] at late
    obtain ⟨late, takes⟩ := late
    have same := agrees Unit Unit (fun _ _ _ => .ok ()) ()
    have parsed : (r.args.map trimRight).foldlM (fun _ _ => .ok ()) () =
        (.ok () : Except Unit Unit) := by
      induction r.args with
      | nil => rfl
      | cons payload args ih => exact ih
    rw [Lines.serve_tokens] at same
    simp only [handled, parsed] at same
    rcases takes with isLsRefs | isFetch
    · obtain ⟨got, refused⟩ := r.iterateArgs_late (fun _ _ => .ok ()) lsRefs late ()
      rw [if_pos isLsRefs, if_pos isLsRefs, refused] at same
      cases same
    · obtain ⟨got, refused⟩ := r.iterateArgs_late (fun _ _ => .ok ()) fetch late ()
      have other : r.command ≠ lsRefs := by
        rw [isFetch]
        decide
      rw [if_neg other, if_neg other, if_pos isFetch, if_pos isFetch, refused] at same
      cases same
  · intro condition σ ε parse init
    rw [Lines.serve_tokens, handled]
    rcases condition with first | ⟨notLsRefs, notFetch⟩
    · have parsed := r.iterateArgs_first (parse r.command) first init
      split
      · rename_i isLsRefs
        rw [← parsed, isLsRefs]
      · split
        · rename_i isFetch
          rw [← parsed, isFetch]
        · rfl
    · rw [if_neg notLsRefs, if_neg notLsRefs, if_neg notFetch, if_neg notFetch]

def agentFirst : Lines where
  before := [ascii "agent=git\n"]
  line := ascii "command=ls-refs\n"
  after := []
  args := [ascii "peel\n"]
  flushed := true
  capabilities := by decide +kernel
  command := lsRefs
  selected := by decide +kernel

theorem agent_line_refused :
    findCommandLine agentFirst.tokens = some (ascii "command=ls-refs") ∧
    serve (fun _ lines line => .ok (lines ++ [line])) [] agentFirst.tokens =
      (.error (.expectedCommand lsRefs (ascii "agent=git\n")) :
        Except (DispatchError Unit) (Served (List Bytes))) := by
  decide +kernel

/-! The fetch path in front of the mirror: `v2proto.ParseFetchArgs`, the walk over the
reachability index, and `serveFetchLazyPath`. -/

open Reachability
open BucketVcs.Pktline (Bytes Token)

inductive FetchError (ε : Type) where
  | args (cause : DispatchError ε)
  | noWant

section Parser

variable {ε : Type} (line : FetchRequest → Bytes → Except ε FetchRequest)

/-- With what an argument line does to the request as `line`: any `line` will do here. -/
def parseFetchArgs (tokens : List Token) : Except (FetchError ε) FetchRequest := do
  let req ← (iterateArgs line fetch tokens ⟨[], [], false, false, false⟩).mapError .args
  if req.wants = [] then .error .noWant else .ok req

variable {line}

theorem wants_of_parseFetchArgs {tokens : List Token} {req : FetchRequest}
    (parsed : parseFetchArgs line tokens = .ok req) : req.wants ≠ [] := by
  obtain ⟨out, -, kept⟩ := bind_ok parsed
  split at kept
  · cases kept
  · cases kept
    assumption

end Parser

/-! ### The walk -/

structure GenItem where
  oid : OID
  gen : UInt32
  deriving Inhabited

namespace GenHeap

def gen (items : Array GenItem) (i : Nat) : UInt32 := items[i]!.gen

def siftUp (items : Array GenItem) (i : Nat) : Array GenItem :=
  if 0 < i ∧ gen items ((i - 1) / 2) < gen items i then
    siftUp (items.swapIfInBounds ((i - 1) / 2) i) ((i - 1) / 2)
  else items
termination_by i

def push (items : Array GenItem) (item : GenItem) : Array GenItem :=
  siftUp (items.push item) items.size

def larger (items : Array GenItem) (best child : Nat) : Nat :=
  if child < items.size ∧ gen items best < gen items child then child else best

def siftDown : Nat → Array GenItem → Nat → Array GenItem
  | 0, items, _ => items
  | turns + 1, items, i =>
    let best := larger items (larger items i (2 * i + 1)) (2 * i + 2)
    if best = i then items else siftDown turns (items.swapIfInBounds i best) best

/-- The index grows with each turn of the loop, so no more turns are needed than there are
items. -/
def pop (items : Array GenItem) : Option (GenItem × Array GenItem) :=
  items[0]?.map fun top =>
    let rest := (items.set! 0 items.back!).pop
    (top, siftDown rest.size rest 0)

theorem size_siftUp (items : Array GenItem) (i : Nat) : (siftUp items i).size = items.size := by
  fun_induction siftUp items i with
  | case1 items i up ih => simpa using ih
  | case2 => rfl

theorem size_push (items : Array GenItem) (item : GenItem) :
    (push items item).size = items.size + 1 := by
  simp [push, size_siftUp]

theorem size_siftDown (turns : Nat) (items : Array GenItem) (i : Nat) :
    (siftDown turns items i).size = items.size := by
  induction turns generalizing items i with
  | zero => rfl
  | succ turns ih =>
    dsimp only [siftDown]
    split
    · rfl
    · rw [ih, Array.size_swapIfInBounds]

theorem size_pop {items rest : Array GenItem} {top : GenItem} (popped : pop items = some (top, rest)) :
    rest.size + 1 = items.size := by
  obtain ⟨first, found, same⟩ := Option.map_eq_some_iff.mp popped
  cases same
  have filled := (Array.getElem?_eq_some_iff.mp found).1
  simp [size_siftDown, Nat.sub_add_cancel filled]

end GenHeap

variable (set : IndexSet)

def generationOf (oid : OID) : UInt32 :=
  (((set.index.lookup oid).or (set.graph.record oid)).map (·.generation)).getD 0

def enqueue (queue : Array GenItem × List OID) (oid : OID) : Array GenItem × List OID :=
  if set.has oid ∧ oid ∉ queue.2 then
    (GenHeap.push queue.1 ⟨oid, generationOf set oid⟩, oid :: queue.2)
  else queue

def known : Finset OID := set.index.keys ∪ (set.graph.commits.map (·.oid)).toFinset

/-- The commits in the heap, and those that may still enter it: each does so once. -/
def ahead (queue : Array GenItem × List OID) : Nat :=
  queue.1.size + (known set \ queue.2.toFinset).card

theorem mem_known {oid : OID} (has : set.has oid = true) : oid ∈ known set := by
  simp only [known, Finset.mem_union, Finmap.mem_keys, mem_toFinset, mem_map]
  rcases Bool.or_eq_true_iff.mp has with indexed | recorded
  · exact .inl (Finmap.lookup_isSome.mp indexed)
  · obtain ⟨record, member, same⟩ := find?_isSome.mp recorded
    exact .inr ⟨record, member, of_decide_eq_true same⟩

theorem ahead_enqueue (queue : Array GenItem × List OID) (oid : OID) :
    ahead set (enqueue set queue oid) = ahead set queue := by
  unfold enqueue
  split
  · next new =>
      have inside : oid ∈ known set \ queue.2.toFinset := by simp [mem_known set new.1, new.2]
      have fewer := Finset.card_erase_add_one inside
      rw [ahead, ahead, GenHeap.size_push, toFinset_cons, Finset.sdiff_insert]
      omega
  · rfl

theorem ahead_foldl (oids : List OID) (queue : Array GenItem × List OID) :
    ahead set (oids.foldl (enqueue set) queue) = ahead set queue := by
  induction oids generalizing queue with
  | nil => rfl
  | cons oid oids ih => rw [foldl_cons, ih, ahead_enqueue]

variable {σ ε : Type} (visit : σ → OID → Except ε σ)

def walkHeap (queue : Array GenItem × List OID) (state : σ) : Except ε σ :=
  match _popped : GenHeap.pop queue.1 with
  | none => .ok state
  | some (top, rest) => do
    let state ← visit state top.oid
    walkHeap ((set.parents top.oid).foldl (enqueue set) (rest, queue.2)) state
termination_by ahead set queue
decreasing_by
  have smaller := GenHeap.size_pop _popped
  rw [ahead_foldl]
  exact Nat.add_lt_add_right (by simp only; omega) _

def walkAncestors (roots : List OID) (state : σ) : Except ε σ :=
  walkHeap set visit (roots.foldl (enqueue set) (#[], [])) state

inductive NegotiateError where
  | unknownWant (oid : OID)
  | cancelled

/-- A visit at a time when `ctx.Err()` may answer; the times are numbered. -/
def visiting (ctxErr : Nat → Bool) (add : List OID → OID → List OID)
    (state : Nat × List OID) (oid : OID) : Except NegotiateError (Nat × List OID) :=
  if ctxErr state.1 then .error .cancelled else .ok (state.1 + 1, add state.2 oid)

def ship (haveSet shipping : List OID) (oid : OID) : List OID :=
  if oid ∈ haveSet ∨ oid ∈ shipping then shipping else shipping ++ [oid]

def negotiate (ctxErr : Nat → Bool) (wants haves : List OID) :
    Except NegotiateError (List OID) := do
  match wants.find? (set.has · = false) with
  | some want => .error (.unknownWant want)
  | none =>
    let (now, haveSet) ← walkAncestors set (visiting ctxErr fun seen oid => oid :: seen)
      (haves.filter set.has) (0, [])
    let (_, shipping) ← walkAncestors set (visiting ctxErr (ship haveSet)) wants (now, [])
    .ok shipping

section Walk

variable {set : IndexSet} {visit : σ → OID → Except ε σ} {state out : σ}

theorem size_le_foldl_enqueue (oids : List OID) (queue : Array GenItem × List OID) :
    queue.1.size ≤ (oids.foldl (enqueue set) queue).1.size := by
  induction oids generalizing queue with
  | nil => exact le_rfl
  | cons oid oids ih =>
    refine le_trans ?_ (ih (enqueue set queue oid))
    unfold enqueue
    split
    · rw [GenHeap.size_push]
      exact Nat.le_succ _
    · exact le_rfl

theorem walkHeap_keeps {P : σ → Prop}
    (keeps : ∀ state oid next, P state → visit state oid = .ok next → P next)
    {queue : Array GenItem × List OID} (holds : P state)
    (done : walkHeap set visit queue state = .ok out) : P out := by
  fun_induction walkHeap set visit queue state with
  | case1 =>
    cases done
    exact holds
  | case2 queue state top rest popped ih =>
    obtain ⟨next, visited, rest⟩ := bind_ok done
    exact ih next (keeps _ _ _ holds visited) rest

/-- A walk from a known commit begins with a visit, and what every visit keeps from then on
holds at its end. -/
theorem walkAncestors_cons {P : σ → Prop} {root : OID} {roots : List OID}
    (known : set.has root = true) (first : ∀ oid next, visit state oid = .ok next → P next)
    (keeps : ∀ state oid next, P state → visit state oid = .ok next → P next)
    (done : walkAncestors set visit (root :: roots) state = .ok out) : P out := by
  have filled : 0 < (((root :: roots).foldl (enqueue set) (#[], [])).1).size := by
    refine lt_of_lt_of_le ?_ (size_le_foldl_enqueue roots _)
    rw [enqueue, if_pos ⟨known, not_mem_nil⟩, GenHeap.size_push]
    exact Nat.succ_pos _
  unfold walkAncestors at done
  unfold walkHeap at done
  split at done
  · rename_i empty
    simp only [GenHeap.pop, Option.map_eq_none_iff, Array.getElem?_eq_none_iff] at empty
    omega
  · obtain ⟨next, visited, rest⟩ := bind_ok done
    exact walkHeap_keeps keeps (first _ _ visited) rest

end Walk

theorem ships_of_negotiate {ctxErr : Nat → Bool} {wants haves shipping : List OID}
    (wanted : wants ≠ []) (unknown : haves.any set.has = false)
    (done : negotiate set ctxErr wants haves = .ok shipping) : shipping ≠ [] := by
  unfold negotiate at done
  split at done
  · cases done
  · rename_i known
    have none : haves.filter set.has = [] :=
      filter_eq_nil_iff.mpr (by simpa using unknown)
    rw [none] at done
    obtain ⟨_, same, kept⟩ := bind_ok done
    rw [walkAncestors, foldl_nil, walkHeap] at same
    cases same
    obtain ⟨⟨later, sent⟩, walked, kept⟩ := bind_ok kept
    cases kept
    obtain ⟨want, rest, rfl⟩ := exists_cons_of_ne_nil wanted
    refine walkAncestors_cons (P := fun state => state.2 ≠ []) ?_ ?_ ?_ walked
    · simpa using List.find?_eq_none.mp known want mem_cons_self
    -- no have is known, so the first visit ships its commit
    · intro oid next visited
      unfold visiting at visited
      split at visited
      · cases visited
      · cases visited
        simp [ship]
    · intro state oid next some visited
      unfold visiting at visited
      split at visited
      · cases visited
      · cases visited
        unfold ship
        split
        · exact some
        · simp

def acknowledgments (commons unknown : List OID) (ready : Bool) : List Token :=
  if commons = [] ∧ unknown = [] then []
  else .data (ascii "acknowledgments\n") ::
    if commons = [] then [.data (ascii "NAK\n")]
    else commons.map (fun oid => .data (ascii ("ACK " ++ oid ++ "\n"))) ++
      if ready then [.data (ascii "ready\n")] else []

/-- Whether the request was handled and what was written, for what `keys.NewRepo` and
`reachability.Load` answered. -/
def serveFetchLazyPath (named : Bool) (loaded : Except LoadError IndexSet) (ctxErr : Nat → Bool)
    (req : FetchRequest) : Bool × List Token :=
  match named, loaded, req.wants.mapM parseOID, req.haves.mapM parseOID with
  | true, .ok set, some wants, some haves =>
    match negotiate set ctxErr wants haves with
    | .ok [] =>
      if req.isDone then (false, [])
      else if haves.any set.has then (false, [])
      else (true, acknowledgments [] [] false ++ [.flush])
    | _ => (false, [])
  | _, _, _, _ => (false, [])

theorem serveFetchLazyPath_of_wants {req : FetchRequest} (wanted : req.wants ≠ []) (named : Bool)
    (loaded : Except LoadError IndexSet) (ctxErr : Nat → Bool) :
    serveFetchLazyPath named loaded ctxErr req = (false, []) := by
  unfold serveFetchLazyPath
  split
  · rename_i set wants haves parsed _
    split
    · rename_i nothing
      split
      · rfl
      · split
        · rfl
        · rename_i unknown
          refine absurd rfl (ships_of_negotiate set ?_ (Bool.eq_false_iff.mpr unknown) nothing)
          rintro rfl
          cases held : req.wants with
          | nil => exact wanted held
          | cons want rest =>
            rw [held, mapM_cons] at parsed
            obtain ⟨oid, -, more⟩ := Option.bind_eq_some_iff.mp parsed
            obtain ⟨oids, -, same⟩ := Option.bind_eq_some_iff.mp more
            cases same
    · rfl
  · rfl

/-- The lazy path has nothing to say: an accepted request names a commit, and if the index knows
it but none of the haves, that commit is to be sent. So each request goes to the mirror with
nothing written, as parsed and as `serveFetch` passes it on, without the repetitions. -/
theorem lazy_path_never_answers {ε : Type} {line : FetchRequest → Bytes → Except ε FetchRequest}
    {tokens : List Token} {req : FetchRequest} (parsed : parseFetchArgs line tokens = .ok req)
    (named : Bool) (loaded : Except LoadError IndexSet) (ctxErr : Nat → Bool) :
    serveFetchLazyPath named loaded ctxErr req = (false, []) ∧
      serveFetchLazyPath named loaded ctxErr
        { req with wants := dedupOIDs req.wants, haves := dedupOIDs req.haves } = (false, []) := by
  have wanted := wants_of_parseFetchArgs parsed
  refine ⟨serveFetchLazyPath_of_wants wanted .., serveFetchLazyPath_of_wants ?_ ..⟩
  obtain ⟨want, rest, held⟩ := exists_cons_of_ne_nil wanted
  exact ne_nil_of_mem (mem_dedupOIDs.mpr (held ▸ mem_cons_self))

def text (bytes : Bytes) : String := String.ofList (bytes.map fun byte => Char.ofNat byte.toNat)

inductive LineError where
  | invalidWant (oid : OID)
  | invalidHave (oid : OID)
  | unknownArgument (line : Bytes)
  deriving DecidableEq

/-- What the lines of a fetch do that asks for neither a part of the history nor URIs. -/
def plainLine (req : FetchRequest) (line : Bytes) : Except LineError FetchRequest :=
  if line = ascii "thin-pack" ∨ line = ascii "no-progress" ∨ line = ascii "ofs-delta" then .ok req
  else if line = ascii "include-tag" then .ok { req with includeTag := true }
  else if line = ascii "done" then .ok { req with isDone := true }
  else if (ascii "want ").isPrefixOf line then
    if (parseOID (text (line.drop 5))).isNone then .error (.invalidWant (text (line.drop 5)))
    else .ok { req with wants := req.wants ++ [text (line.drop 5)] }
  else if (ascii "have ").isPrefixOf line then
    if (parseOID (text (line.drop 5))).isNone then .error (.invalidHave (text (line.drop 5)))
    else .ok { req with haves := req.haves ++ [text (line.drop 5)] }
  else .error (.unknownArgument line)

def oneCommit : IndexSet := ⟨⟨[⟨objectOne, 1, []⟩], []⟩, ⟨[], []⟩, [], ∅, ∅⟩

/-- A round with a want that the index knows and a have that it does not. -/
theorem lazy_path_never_answers_round :
    let req : FetchRequest := ⟨[objectOne], [objectTwo], false, false, false⟩
    parseFetchArgs plainLine ([.data (ascii "command=fetch\n"), .delim] ++
        [.data (ascii ("want " ++ objectOne ++ "\n")),
          .data (ascii ("have " ++ objectTwo ++ "\n")), .flush]) = .ok req ∧
      oneCommit.has objectOne = true ∧ oneCommit.has objectTwo = false ∧
      serveFetchLazyPath true (.ok oneCommit) (fun _ => false) req = (false, []) :=
  have parsed := rfl
  ⟨parsed, rfl, rfl, (lazy_path_never_answers parsed true _ _).1⟩

end BucketVcs.UploadPack
