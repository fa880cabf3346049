import BucketVcs.Mirror.Safety

/-! The files of a mirror on disk: the bare, the sentinel beside it, and a process that
can die between any two operations on them or on the bucket. -/

namespace BucketVcs.Mirror.Sentinel

open Manifest RefStore Importer ReceivePack Exporter Writers Transition

variable {git : Git}

/-- Who changes the mirror. The write lock, or the init mutex of a first `Open`, lets one
request at a time do so. -/
inductive Holder (git : Git) where
  | free
  | locked
  | syncing (view : Root)
  | wiping (view : Root)
  | wiped (view : Root)
  | exporting (view : Root)
  | filling (view source : Root)
  | exported (view source : Root)
  | pushing (t : ThreadId) (touched : Bool) (todo : List UpdateCommand)
  | marking

/-- The bucket with all its writers, the pushes of the gateway among them; the directory of
the bare, if there is one; the sentinel file. -/
structure Site (git : Git) where
  writers : Writers.System git
  bare : Option Repository
  sentinel : Option (Nat × Nat)
  holder : Holder git

def Site.root (s : Site git) : Root := s.writers.shared.root

def Site.UpToDate (s : Site git) (view : Root) : Prop :=
  s.bare.isSome ∧ s.sentinel = some (sentinelOf view)

def stopHolder (writers : Writers.System git) : Holder git → Writers.System git
  | .pushing t _ _ => ⟨writers.shared, Function.update writers.threads t .finished⟩
  | _ => writers

inductive Label where
  | bucket
  | sync
  | push
  | applyRef
  | markFails
  | crash
  deriving DecidableEq

section Steps

variable (h : Hashing) (exporter : Exporter.Tools git)

inductive Step : Site git → Label → Site git → Prop where
  -- writers of other processes
  | other {s t l w} (stepped : Writers.Step h s.writers (t, l) w)
      (apart : ∀ touched todo, s.holder ≠ .pushing t touched todo) :
      Step s .bucket { s with writers := w }
  -- the first Open reads the root and goes on as SyncToCurrent does under the write lock
  | openFirst {s} (free : s.holder = .free) :
      Step s .sync { s with holder := .syncing s.root }
  | lock {s} (free : s.holder = .free) : Step s .sync { s with holder := .locked }
  | readRoot {s} (held : s.holder = .locked) :
      Step s .sync { s with holder := .syncing s.root }
  | readRootFails {s} (held : s.holder = .locked) :
      Step s .sync { s with holder := .free }
  | unchanged {s view} (held : s.holder = .syncing view)
      (same : s.UpToDate view) : Step s .sync { s with holder := .free }
  -- syncTo: os.RemoveAll of the bare, in any order of its files
  | wipe {s view} (held : s.holder = .syncing view)
      (stale : ¬ s.UpToDate view) : Step s .sync { s with holder := .wiping view }
  | removeFile {s view} (held : s.holder = .wiping view) (left : Repository) :
      Step s .sync { s with bare := some left }
  | wipeFails {s view} (held : s.holder = .wiping view) :
      Step s .sync { s with holder := .free }
  | wiped {s view} (held : s.holder = .wiping view) :
      Step s .sync { s with bare := none, holder := .wiped view }
  -- the error of os.Remove is dropped
  | removeSentinel {s view} (held : s.holder = .wiped view) :
      Step s .sync { s with sentinel := none, holder := .exporting view }
  | removeSentinelFails {s view} (held : s.holder = .wiped view) :
      Step s .sync { s with holder := .exporting view }
  -- Export reads the root once more and fills the directory file by file
  | exportReads {s view} (held : s.holder = .exporting view) :
      Step s .sync { s with holder := .filling view s.root }
  | exportWrites {s view source} (held : s.holder = .filling view source)
      (written : Repository) : Step s .sync { s with bare := some written }
  | exportFails {s view}
      (held : s.holder = .exporting view ∨ ∃ source, s.holder = .filling view source) :
      Step s .sync { s with holder := .free }
  | exportDone {s view source result} (held : s.holder = .filling view source)
      (made : exportRepository h exporter s.writers.shared.packs s.writers.shared.objects source
        false = .ok result) :
      Step s .sync { s with bare := some result.repository, holder := .exported view source }
  -- the sentinel is renamed into place
  | writeSentinel {s view source} (held : s.holder = .exported view source) :
      Step s .sync { s with sentinel := some (sentinelOf view), holder := .free }
  | writeSentinelFails {s view source}
      (held : s.holder = .exported view source) : Step s .sync { s with holder := .free }
  -- completeReceivePack
  | lockPush {s t} (free : s.holder = .free)
      (idle : s.writers.threads t = .idle) :
      Step s .push { s with holder := .pushing t false [] }
  | pushWork {s t touched l w} (held : s.holder = .pushing t touched [])
      (stepped : Writers.Step h s.writers (t, l) w) (own : (requestOf (w.threads t)).isSome) :
      Step s .push
        { s with writers := w, holder := .pushing t touched (todoOf (w.threads t)) }
  | applyRef {s t touched u rest bare}
      (held : s.holder = .pushing t touched (u :: rest)) (there : s.bare = some bare) :
      Step s .applyRef
        { s with
          bare := some { bare with refs := applyUpdate bare.refs (u.refname, u.newOID) }
          holder := .pushing t true rest }
  | applyFails {s t touched u rest p w} (held : s.holder = .pushing t touched (u :: rest))
      (stepped : Writers.Step h s.writers (t, .work) w)
      (reports : w.threads t = .reported p .turnedDown
        (settle (.ng "internal-mirror-error") p.statuses)) :
      Step s .push { s with writers := w, holder := .pushing t true [] }
  | finish {s t touched p course report} (held : s.holder = .pushing t touched [])
      (done : s.writers.threads t = .reported p course report) :
      Step s .push { s with holder := if touched then .marking else .free }
  -- markMirrorStale drops the error of os.Remove as well
  | markStale {s} (held : s.holder = .marking) :
      Step s .push { s with sentinel := none, holder := .free }
  | markFails {s} (held : s.holder = .marking) :
      Step s .markFails { s with holder := .free }
  | crash {s} :
      Step s .crash { s with writers := stopHolder s.writers s.holder, holder := .free }

end Steps

def start (defaultBranch : RefName) (version : Nat) : Site git :=
  ⟨Writers.start defaultBranch version, none, none, .free⟩

def Current (s : Site git) : Prop := s.sentinel = some (sentinelOf s.root)

def Matches (h : Hashing) (s : Site git) : Prop :=
  ∃ bare, s.bare = some bare ∧
    RefStore.list h s.writers.shared.objects s.root.body = .ok bare.refs

/-- What a sync that finds the sentinel current relies on. -/
def Trusted (h : Hashing) (s : Site git) : Prop := Current s → Matches h s

/-- A push that has begun to write refs and has not yet removed the sentinel. -/
def Holder.wrote : Holder git → Bool
  | .pushing _ touched _ => touched
  | .marking => true
  | _ => false

/-- No ref of the bare is changed beside a sentinel that names the current root. -/
def Unwritten (e : Event (Site git) Label) : Prop :=
  e.label = .applyRef → Current e.pre → e.post.bare = e.pre.bare

/-- A push that wrote refs beside such a sentinel neither dies nor fails to remove it. -/
def Orderly (e : Event (Site git) Label) : Prop :=
  e.label = .crash ∨ e.label = .markFails → e.pre.holder.wrote = true → ¬ Current e.pre

/-! The bucket's side. -/

variable {h : Hashing} {exporter : Exporter.Tools git} {s s' : Site git} {l : Label}

theorem Step.seen (step : Step h exporter s l s') :
    s'.writers = s.writers ∨ ∃ l', Writers.Step h s.writers l' s'.writers := by
  cases step with
  | other stepped apart | pushWork held stepped own | applyFails held stepped reports =>
    exact .inr ⟨_, stepped⟩
  | crash =>
    cases held : s.holder with
    | pushing t touched todo => exact .inr ⟨(t, .work), .by_thread .stop⟩
    | _ => exact .inl rfl
  | _ => exact .inl rfl

theorem root_back {σ σ' : World git} (global : Global h σ) (global' : Global h σ')
    (grows : Grows σ σ') {root : Root} (member : root ∈ σ.history)
    (same : root.manifestVersion = σ'.root.manifestVersion) : σ'.root = σ.root := by
  have before := version_le_current global member
  have kept := grows.history global.chained.current_mem
  have after := version_le_current global' kept
  exact global'.version_injective global'.chained.current_mem kept (by omega)

/-! The invariant. -/

/-- What the holder knows. The sentinel is out of date from the first file that a rebuild
removes to the last one it writes. -/
def Knows (h : Hashing) (s : Site git) : Holder git → Prop
  | .syncing view => view ∈ s.writers.shared.history ∧
      ∀ named, s.sentinel = some named → named.1 ≤ view.manifestVersion
  | .wiping view => view ∈ s.writers.shared.history ∧ ¬ Current s
  | .wiped view => view ∈ s.writers.shared.history ∧ ¬ Current s
  | .exporting view => view ∈ s.writers.shared.history ∧ ¬ Current s
  | .filling view source => view ∈ s.writers.shared.history ∧ source ∈ s.writers.shared.history ∧
      view.manifestVersion ≤ source.manifestVersion ∧ ¬ Current s
  | .exported view source => view ∈ s.writers.shared.history ∧ source ∈ s.writers.shared.history ∧
      view.manifestVersion ≤ source.manifestVersion ∧ ∃ bare, s.bare = some bare ∧
        RefStore.list h s.writers.shared.objects source.body = .ok bare.refs
  | _ => True

/-- The sentinel names a root of the history; if that is the current one the bare agrees
with it, unless (`lenient`) a push has begun to write. -/
structure Inv (h : Hashing) (lenient : Bool) (s : Site git) : Prop where
  recorded : ∀ named, s.sentinel = some named →
    ∃ root ∈ s.writers.shared.history, sentinelOf root = named
  knows : Knows h s s.holder
  trusted : Current s → Matches h s ∨ (lenient = true ∧ s.holder.wrote = true)

theorem inv_start (h : Hashing) (lenient : Bool) (defaultBranch : RefName) (version : Nat) :
    Inv h lenient (start defaultBranch version : Site git) := by
  refine ⟨?_, trivial, ?_⟩
  · intro named recorded
    cases recorded
  · intro current
    cases current

variable {lenient : Bool}

variable {w : Writers.System git} {view : Root} {defaultBranch : RefName} {version : Nat}
  {kinds : List Label} {first : Site git}

theorem Inv.current_back (inv : Inv h lenient s) (global : Global h s.writers.shared)
    (global' : Global h w.shared) (grows : Grows s.writers.shared w.shared)
    (current : Current { s with writers := w }) : w.shared.root = s.root ∧ Current s := by
  obtain ⟨root, member, named⟩ := inv.recorded _ current
  have same : w.shared.root = s.root :=
    root_back global global' grows member (congrArg Prod.fst named)
  refine ⟨same, ?_⟩
  have kept : s.sentinel = some (sentinelOf w.shared.root) := current
  rwa [same] at kept

theorem Inv.grow (inv : Inv h lenient s) (global : Global h s.writers.shared)
    (global' : Global h w.shared) (grows : Grows s.writers.shared w.shared) :
    Inv h lenient { s with writers := w } := by
  have back := inv.current_back global global' grows
  have stale : ¬ Current s → ¬ Current { s with writers := w } :=
    fun old current => old (back current).2
  refine ⟨?_, ?_, ?_⟩
  · intro named recorded
    obtain ⟨root, member, same⟩ := inv.recorded named recorded
    exact ⟨root, grows.history member, same⟩
  · have knows := inv.knows
    cases held : s.holder with
    | syncing view =>
      rw [held] at knows
      exact ⟨grows.history knows.1, knows.2⟩
    | wiping view | wiped view | exporting view =>
      rw [held] at knows
      exact ⟨grows.history knows.1, stale knows.2⟩
    | filling view source =>
      rw [held] at knows
      obtain ⟨seen, read, order, old⟩ := knows
      exact ⟨grows.history seen, grows.history read, order, stale old⟩
    | exported view source =>
      rw [held] at knows
      obtain ⟨seen, read, order, bare, there, listed⟩ := knows
      exact ⟨grows.history seen, grows.history read, order, bare, there,
        list_grows grows.objects (global.sound read).resolves listed⟩
    | _ => trivial
  · intro current
    obtain ⟨same, before⟩ := back current
    rcases inv.trusted before with ⟨bare, there, listed⟩ | excused
    · left
      refine ⟨bare, there, ?_⟩
      have kept := list_grows grows.objects
        (global.sound global.chained.current_mem).resolves listed
      simp only [Site.root, same]
      exact kept
    · exact .inr excused

theorem Inv.pass (inv : Inv h lenient s) {next : Holder git}
    (knows : Knows h { s with holder := next } next)
    (excuse : lenient = true → s.holder.wrote = true → Current s → next.wrote = true) :
    Inv h lenient { s with holder := next } := by
  refine ⟨inv.recorded, knows, ?_⟩
  intro current
  rcases inv.trusted current with agrees | ⟨may, wrote⟩
  · exact .inl agrees
  · exact .inr ⟨may, excuse may wrote current⟩

theorem Inv.stale (recorded : ∀ named, s.sentinel = some named →
      ∃ root ∈ s.writers.shared.history, sentinelOf root = named)
    (knows : Knows h s s.holder) (old : ¬ Current s) : Inv h lenient s :=
  ⟨recorded, knows, fun current => absurd current old⟩

theorem Inv.reads (inv : Inv h lenient s) (global : Global h s.writers.shared) :
    Knows h { s with holder := .syncing s.root } (.syncing s.root) := by
  refine ⟨global.chained.current_mem, ?_⟩
  intro named recorded
  obtain ⟨root, member, rfl⟩ := inv.recorded named recorded
  exact version_le_current global member

theorem Inv.wipes (inv : Inv h lenient s) (global : Global h s.writers.shared)
    (held : s.holder = .syncing view) (stale : ¬ s.UpToDate view) : ¬ Current s := by
  intro current
  have knows := inv.knows
  rw [held] at knows
  obtain ⟨seen, bound⟩ := knows
  have newest : s.root.manifestVersion ≤ view.manifestVersion := bound _ current
  have oldest : view.manifestVersion ≤ s.root.manifestVersion := version_le_current global seen
  have same : view = s.root :=
    global.version_injective seen global.chained.current_mem (le_antisymm oldest newest)
  rcases inv.trusted current with ⟨bare, there, -⟩ | ⟨-, wrote⟩
  · apply stale
    rw [same]
    exact ⟨by rw [there]; rfl, current⟩
  · rw [held] at wrote
    cases wrote

theorem Inv.rebuilt (inv : Inv h lenient s) (global : Global h s.writers.shared) {source : Root}
    (held : s.holder = .exported view source) :
    Inv h lenient { s with sentinel := some (sentinelOf view), holder := .free } := by
  have knows := inv.knows
  rw [held] at knows
  obtain ⟨seen, read, order, bare, there, listed⟩ := knows
  refine ⟨?_, trivial, ?_⟩
  · intro named recorded
    exact ⟨view, seen, Option.some.inj recorded⟩
  · intro current
    have same : view.manifestVersion = s.root.manifestVersion :=
      congrArg Prod.fst (Option.some.inj current)
    have newest : source.manifestVersion ≤ s.root.manifestVersion := version_le_current global read
    have copied : source = s.root :=
      global.version_injective read global.chained.current_mem
        (le_antisymm newest (same ▸ order))
    exact .inl ⟨bare, there, copied ▸ listed⟩

/-- The condition on one step. -/
structure Meets (lenient : Bool) (e : Event (Site git) Label) : Prop where
  strict : lenient = false → Unwritten e
  loose : lenient = true → Orderly e

theorem Inv.applyRef (inv : Inv h lenient s) {t : ThreadId} {rest : List UpdateCommand}
    {bare : Repository} (unwritten : lenient = false → Current s → some bare = s.bare) :
    Inv h lenient { s with bare := some bare, holder := .pushing t true rest } := by
  refine ⟨inv.recorded, trivial, ?_⟩
  intro current
  cases lenient with
  | true => exact .inr ⟨rfl, rfl⟩
  | false =>
    rcases inv.trusted current with ⟨old, there, listed⟩ | ⟨may, -⟩
    · exact .inl ⟨old, (unwritten rfl current).trans there, listed⟩
    · cases may

theorem Inv.step (inv : Inv h lenient s) (safe : Interleave.Safe (Global h) (Local h) s.writers)
    (step : Step h exporter s l s') (meets : Meets lenient ⟨s, l, s'⟩) : Inv h lenient s' := by
  have global := safe.global
  have grown : ∀ {t : ThreadId} {l : Writers.Label} {w : Writers.System git},
      Writers.Step h s.writers (t, l) w → Inv h lenient { s with writers := w } := by
    intro t l w stepped
    obtain ⟨global', -, guaranteed⟩ := move_safe global (safe.thread t) stepped.moved.1
    exact inv.grow global global' guaranteed.grows
  have knows := inv.knows
  have honest : s.holder.wrote = false → ∀ next : Holder git, lenient = true →
      s.holder.wrote = true → Current s → next.wrote = true := by
    intro unwritten next _ wrote
    rw [unwritten] at wrote
    cases wrote
  cases step with
  | other stepped apart => exact grown stepped
  | openFirst free => exact inv.pass (inv.reads global) (honest (by rw [free]; rfl) _)
  | lock free | lockPush free idle => exact inv.pass trivial (honest (by rw [free]; rfl) _)
  | readRoot held => exact inv.pass (inv.reads global) (honest (by rw [held]; rfl) _)
  | readRootFails held | unchanged held same | wipeFails held | writeSentinelFails held =>
    exact inv.pass trivial (honest (by rw [held]; rfl) _)
  | wipe held stale =>
    have old := inv.wipes global held stale
    rw [held] at knows
    exact .stale inv.recorded ⟨knows.1, old⟩ old
  | removeFile held left =>
    rw [held] at knows
    refine .stale inv.recorded ?_ knows.2
    simp only [held]
    exact knows
  | wiped held | removeSentinelFails held =>
    rw [held] at knows
    exact .stale inv.recorded knows knows.2
  | @removeSentinel view held =>
    rw [held] at knows
    have gone : ¬ Current { s with sentinel := none, holder := .exporting view } := nofun
    exact .stale nofun ⟨knows.1, gone⟩ gone
  | exportReads held =>
    rw [held] at knows
    exact .stale inv.recorded ⟨knows.1, global.chained.current_mem,
      version_le_current global knows.1, knows.2⟩ knows.2
  | exportWrites held written =>
    rw [held] at knows
    refine .stale inv.recorded ?_ knows.2.2.2
    simp only [held]
    exact knows
  | exportFails held =>
    refine inv.pass trivial ?_
    rcases held with held | ⟨source, held⟩
    · exact honest (by rw [held]; rfl) _
    · exact honest (by rw [held]; rfl) _
  | exportDone held made =>
    rw [held] at knows
    obtain ⟨seen, read, order, old⟩ := knows
    exact .stale inv.recorded ⟨seen, read, order, _, rfl, export_refs made⟩ old
  | writeSentinel held => exact inv.rebuilt global held
  | pushWork held stepped own =>
    refine (grown stepped).pass trivial ?_
    intro _ wrote _
    simp only [held] at wrote
    exact wrote
  | applyRef held there =>
    apply inv.applyRef
    intro strict current
    exact meets.strict strict rfl current
  | applyFails held stepped reports => exact (grown stepped).pass trivial fun _ _ _ => rfl
  | @finish t touched p course report held done =>
    cases touched with
    | true => exact inv.pass trivial fun _ _ _ => rfl
    | false => exact inv.pass trivial (honest (by rw [held]; rfl) _)
  | markStale held => exact .stale nofun trivial nofun
  | markFails held =>
    refine inv.pass trivial ?_
    intro may wrote current
    exact absurd current (meets.loose may (.inr rfl) wrote)
  | crash =>
    have dropped : Inv h lenient { s with holder := .free } := by
      refine inv.pass trivial ?_
      intro may wrote current
      exact absurd current (meets.loose may (.inl rfl) wrote)
    cases held : s.holder with
    | pushing t touched todo => exact ⟨dropped.recorded, trivial, dropped.trusted⟩
    | _ => exact dropped

theorem run_inv (utf8 : Utf8.Valid defaultBranch) {events : List (Event (Site git) Label)}
    (run : Run (Step h exporter) (start defaultBranch version) events s)
    (meets : ∀ e ∈ events, Meets lenient e) : Inv h lenient s := by
  have inv := run.invariant
    (I := fun s => (∃ events', Run (Writers.Step h) (Writers.start defaultBranch version) events'
      s.writers) ∧ Inv h lenient s)
    ⟨⟨[], .nil⟩, inv_start h lenient defaultBranch version⟩ ?_ meets
  · exact inv.2
  · intro s l s' known permitted step
    obtain ⟨⟨earlier, seen⟩, inv⟩ := known
    refine ⟨?_, inv.step (run_safe utf8 seen) step permitted⟩
    rcases step.seen with same | ⟨l', stepped⟩
    · exact ⟨earlier, same ▸ seen⟩
    · exact ⟨_, seen.next stepped⟩

/-- A sentinel that names the current root vouches for the refs of the bare in every state
of a run in which no push changes refs beside such a sentinel; and in a run in which such
a push neither dies nor fails to remove the sentinel afterwards, in every state that is
not between its first ref and that removal. -/
theorem sentinel_trusted (exporter : Exporter.Tools git) {defaultBranch : RefName} {version : Nat}
    (utf8 : Utf8.Valid defaultBranch) {events : List (Event (Site git) Label)}
    (run : Run (Step h exporter) (start defaultBranch version) events s) :
    ((∀ e ∈ events, Unwritten e) → Trusted h s) ∧
      ((∀ e ∈ events, Orderly e) → s.holder.wrote = false → Trusted h s) := by
  constructor
  · intro unwritten current
    have inv : Inv h false s :=
      run_inv utf8 run fun e member => ⟨fun _ => unwritten e member, nofun⟩
    rcases inv.trusted current with agrees | ⟨may, -⟩
    · exact agrees
    · cases may
  · intro orderly idle current
    have inv : Inv h true s := run_inv utf8 run fun e member => ⟨nofun, fun _ => orderly e member⟩
    rcases inv.trusted current with agrees | ⟨-, wrote⟩
    · exact agrees
    · rw [idle] at wrote
      cases wrote

/-! A mirror of the imported repository, and a push that dies after its first ref. -/

def Leads (h : Hashing) (exporter : Exporter.Tools git) (kinds : List Label)
    (first s : Site git) : Prop :=
  ∃ events, Run (Step h exporter) first events s ∧ ∀ e ∈ events, e.label ∈ kinds

theorem Leads.then (leads : Leads h exporter kinds first s) (step : Step h exporter s l s')
    (kind : l ∈ kinds) : Leads h exporter kinds first s' := by
  obtain ⟨events, run, labels⟩ := leads
  refine ⟨_, run.next step, ?_⟩
  intro e member
  rcases List.mem_cons.mp member with rfl | older
  · exact kind
  · exact labels e older

theorem leads_of_writers (exporter : Tools git) (kind : .bucket ∈ kinds)
    {first : Writers.System git} (initial : first = Writers.start defaultBranch version)
    (reached : Reached h first w) :
    Leads h exporter kinds (start defaultBranch version) ⟨w, none, none, .free⟩ := by
  obtain ⟨events, run, -⟩ := reached
  induction run with
  | nil =>
    subst initial
    exact ⟨[], .nil, fun e member => absurd member List.not_mem_nil⟩
  | @next events before after l earlier taken ih =>
    exact ih.then (.other taken nofun) kind

theorem Leads.mirror {result : Result} (leads : Leads h exporter kinds first ⟨w, none, none, .free⟩)
    (made : exportRepository h exporter w.shared.packs w.shared.objects w.shared.root false =
      .ok result) (kind : .sync ∈ kinds) :
    Leads h exporter kinds first
      ⟨w, some result.repository, some (sentinelOf w.shared.root), .free⟩ := by
  have opened := leads.then (.openFirst rfl) kind
  have wiping := opened.then (.wipe rfl (by simp [Site.UpToDate])) kind
  have wiped := wiping.then (.wiped rfl) kind
  have removed := wiped.then (.removeSentinel rfl) kind
  have reads := removed.then (.exportReads rfl) kind
  have exported := reads.then (.exportDone rfl made) kind
  exact exported.then (.writeSentinel rfl) kind

def importedWriters : Writers.System sampleGit :=
  Interleave.advance (Writers.start mainRef 1) 0 importedWorld
    (.landed (.importRefs importedBody) importedBody)

def mirrored : Site sampleGit :=
  ⟨importedWriters, some importedBare, some (sentinelOf importedWorld.root), .free⟩

theorem leads_mirrored (bucket : .bucket ∈ kinds) (sync : .sync ∈ kinds) :
    Leads spelledHashing sampleTools kinds (start mainRef 1) mirrored :=
  (leads_of_writers sampleTools bucket rfl (reached_imported spelledHashing)).mirror import_exported sync

theorem sentinel_trusted_sample :
    ∃ events, Run (Step spelledHashing sampleTools) (start mainRef 1) events mirrored ∧
      Current mirrored ∧ Matches spelledHashing mirrored := by
  have leads : Leads spelledHashing sampleTools [.bucket, .sync] (start mainRef 1) mirrored :=
    leads_mirrored (by decide) (by decide)
  obtain ⟨events, run, labels⟩ := leads
  have quiet : ∀ e ∈ events, Orderly e := by
    intro e member died
    have known := labels e member
    rcases died with died | died
    · rw [died] at known
      exact absurd known (by decide)
    · rw [died] at known
      exact absurd known (by decide)
  exact ⟨events, run, rfl, (sentinel_trusted sampleTools (by decide) run).2 quiet rfl rfl⟩

def strayChecked : Writers.System sampleGit :=
  Interleave.advance importedWriters 6 importedWorld (.checked strayPush)

def strayAccepted : Writers.System sampleGit :=
  Interleave.advance strayChecked 6 importedWorld (.accepted strayPush)

def strayLeft : Site sampleGit :=
  ⟨stopHolder strayAccepted (.pushing 6 true []),
    some { importedBare with refs := applyUpdate importedBare.refs (mainRef, objectThree) },
    some (sentinelOf importedWorld.root), .free⟩

theorem leads_strayLeft : Leads spelledHashing sampleTools [.bucket, .sync, .push, .applyRef, .crash]
    (start mainRef 1) strayLeft := by
  have through : gate strayRequest.isAtomic (precheckUpdates (RefStore.list spelledHashing
      importedWorld.objects importedWorld.root.body) strayRequest.updates) =
      .inr [(strayBranch, .pending)] := by decide
  have receives : Writers.Step spelledHashing importedWriters (6, .work) strayChecked :=
    .by_thread (.receive strayRequest through)
  have screens : Writers.Step spelledHashing strayChecked (6, .work) strayAccepted :=
    .by_thread (.screen (screens_refl _) (gate_again through))
  have opened : Leads spelledHashing sampleTools [.bucket, .sync, .push, .applyRef, .crash]
      (start mainRef 1) mirrored := leads_mirrored (by decide) (by decide)
  have locked := opened.then (.lockPush (t := 6) rfl rfl) (by decide)
  have checked := locked.then (.pushWork rfl receives rfl) (by decide)
  have accepted := checked.then (.pushWork rfl screens rfl) (by decide)
  have applied := accepted.then (.applyRef rfl rfl) (by decide)
  exact applied.then .crash (by decide)

/-- The next request finds the sentinel current and serves a ref no root ever had. -/
theorem crash_leaves_stray_ref :
    ∃ events, Run (Step spelledHashing sampleTools) (start mainRef 1) events strayLeft ∧
      strayLeft.holder = .free ∧ ¬ Trusted spelledHashing strayLeft := by
  obtain ⟨events, run, -⟩ := leads_strayLeft
  refine ⟨events, run, rfl, ?_⟩
  intro trusted
  obtain ⟨bare, there, listed⟩ := trusted rfl
  cases there
  have same : (.ok bothRefs : Except RefStore.Error RefMap) =
      .ok (applyUpdate bothRefs (mainRef, objectThree)) := import_listed.symm.trans listed
  have before : bothRefs.lookup mainRef = some objectThree := by
    rw [Except.ok.inj same]
    decide
  revert before
  decide

end BucketVcs.Mirror.Sentinel
