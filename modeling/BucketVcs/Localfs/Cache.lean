import BucketVcs.Lib.Run
import BucketVcs.Manifest.Body

/-! `Localfs.List` over its cache of keys, while operations fail after any of their steps. -/

namespace BucketVcs.Localfs

open Transition

abbrev Key := List UInt8

structure Page (M : Type) where
  objects : List M := []
  commonPrefixes : List Key := []
  nextToken : Key := []
  deriving DecidableEq

def Page.size {M : Type} (page : Page M) : Nat := page.objects.length + page.commonPrefixes.length

/-- A text up to the end of the first delimiter in it. -/
def cutAfter (delimiter : Key) : Key → Option Key
  | [] => none
  | byte :: rest =>
    if delimiter <+: byte :: rest then some delimiter
    else (cutAfter delimiter rest).map (byte :: ·)

def commonPrefix (start delimiter key : Key) : Option Key :=
  if delimiter = [] then none else (cutAfter delimiter (key.drop start.length)).map (start ++ ·)

section List

variable {ε M : Type} (head : Key → Except ε M) (start delimiter : Key) (maxKeys : Nat)

def fill : List Key → Page M → Except ε (Page M)
  | [], page => .ok page
  | key :: keys, page =>
    match commonPrefix start delimiter key with
    | some cp =>
      if page.commonPrefixes.contains cp then fill keys page
      else
        let page := { page with commonPrefixes := page.commonPrefixes ++ [cp] }
        if maxKeys ≤ page.size then .ok { page with nextToken := cp ++ [0xFF] } else fill keys page
    | none => do
      let md ← head key
      let page := { page with objects := page.objects ++ [md] }
      if maxKeys ≤ page.size then .ok { page with nextToken := key } else fill keys page

/-- `List` from the sorted keys of the prefix. -/
def listFrom (cont : Key) (keys : List Key) : Except ε (Page M) :=
  fill head start delimiter maxKeys (if cont = [] then keys else keys.dropWhile (· ≤ cont)) {}

end List

/-- Contents and sidecars below the objects directory. -/
structure Disk (C S : Type) where
  contents : Finmap fun _ : Key => C
  sidecars : Key → Option S

variable {C S : Type}

def collectKeys (disk : Disk C S) (start : Key) : List Key :=
  (Dict.sortedKeys disk.contents).filter (start <+: ·)

/-- A put, a conditional put and a multipart completion write a content and its sidecar. -/
inductive Operation (C S : Type) where
  | write (key : Key) (content : C) (sidecar : S)
  | delete (key : Key)

def promote (key : Key) (content : C) (disk : Disk C S) : Disk C S :=
  { disk with contents := disk.contents.insert key content }

def remove (key : Key) (disk : Disk C S) : Disk C S :=
  { disk with contents := disk.contents.erase key }

def setSidecar (key : Key) (sidecar : Option S) (disk : Disk C S) : Disk C S :=
  { disk with sidecars := Function.update disk.sidecars key sidecar }

/-- The steps from the first that can be seen on: the rename or removal of the content, that of
the sidecar, and the sync of the directory after each. -/
def Operation.steps : Operation C S → List (Disk C S → Disk C S)
  | .write key content sidecar => [promote key content, id, setSidecar key (some sidecar), id]
  | .delete key => [remove key, id, setSidecar key none, id]

structure Store (C S : Type) where
  disk : Disk C S
  listGen : Nat
  listCache : Key → Option (Nat × List Key)

def Store.new (disk : Disk C S) : Store C S := ⟨disk, 0, fun _ => none⟩

namespace Store

variable (s : Store C S)

/-- An operation returns after `done` of its steps, with an error if there are more; one that is
refused or fails before has done none. -/
def perform (op : Operation C S) (done : Nat) : Store C S :=
  { s with
    disk := (op.steps.take done).foldl (fun disk step => step disk) s.disk
    listGen := if op.steps.length ≤ done then s.listGen + 1 else s.listGen }

def cachedKeys (start : Key) : List Key :=
  match s.listCache start with
  | some (gen, keys) => if gen = s.listGen then keys else collectKeys s.disk start
  | none => collectKeys s.disk start

def cache (start : Key) : Store C S :=
  { s with
    listCache := Function.update s.listCache start (some (s.listGen, s.cachedKeys start)) }

end Store

inductive Action (C S : Type) where
  | perform (op : Operation C S) (done : Nat)
  | list (start : Key)
  /-- `healSidecar`. -/
  | heal (key : Key) (sidecar : S)

def Store.next (s : Store C S) : Action C S → Store C S
  | .perform op done => s.perform op done
  | .list start => s.cache start
  | .heal key sidecar => { s with disk := setSidecar key (some sidecar) s.disk }

def Step (s : Store C S) (action : Action C S) (s' : Store C S) : Prop := s.next action = s'

/-- It makes a key, or removes one. -/
def Operation.Moves (disk : Disk C S) : Operation C S → Prop
  | .write key _ _ => key ∉ disk.contents
  | .delete key => key ∈ disk.contents

/-- An operation that has made or removed a key does not end in an error. -/
def Finishes (e : Event (Store C S) (Action C S)) : Prop :=
  ∀ op done, e.label = .perform op done → 0 < done → op.Moves e.pre.disk → op.steps.length ≤ done

/-- No cached list is from a later generation, and one of this generation is what is there. -/
def Coherent (s : Store C S) : Prop :=
  ∀ start gen keys, s.listCache start = some (gen, keys) →
    gen ≤ s.listGen ∧ (gen = s.listGen → keys = collectKeys s.disk start)

section Runs

variable {s s' : Store C S} {action : Action C S}

theorem Coherent.cachedKeys (coherent : Coherent s) (start : Key) :
    s.cachedKeys start = collectKeys s.disk start := by
  unfold Store.cachedKeys
  split
  · rename_i gen keys cached
    split
    · rename_i same
      exact (coherent start gen keys cached).2 same
    · rfl
  · rfl

theorem keys_perform {op : Operation C S} {done : Nat}
    (finishes : 0 < done → op.Moves s.disk → op.steps.length ≤ done)
    (fails : ¬ op.steps.length ≤ done) :
    (s.perform op done).disk.contents.keys = s.disk.contents.keys := by
  cases op with
  | write key content sidecar =>
    match done with
    | 0 => rfl
    | 1 | 2 | 3 =>
      have present : key ∈ s.disk.contents := not_not.mp fun new => fails (finishes (by omega) new)
      ext other
      simp +contextual [Store.perform, Operation.steps, promote, setSidecar, Finmap.mem_keys,
        present]
    | n + 4 => exact absurd (Nat.le_add_left 4 n) fails
  | delete key =>
    match done with
    | 0 => rfl
    | 1 | 2 | 3 =>
      have absent : key ∉ s.disk.contents := fun present => fails (finishes (by omega) present)
      simp [Store.perform, Operation.steps, remove, setSidecar, Finmap.keys_erase,
        Finmap.mem_keys, absent]
    | n + 4 => exact absurd (Nat.le_add_left 4 n) fails

theorem Coherent.step (coherent : Coherent s) (finishes : Finishes ⟨s, action, s'⟩)
    (taken : Step s action s') : Coherent s' := by
  subst taken
  intro start gen keys cached
  cases action with
  | perform op done =>
    obtain ⟨le, current⟩ := coherent start gen keys cached
    simp only [Store.next, Store.perform]
    split
    -- the generation moves on, past that of every entry
    · exact ⟨Nat.le_succ_of_le le, fun same => absurd same (by omega)⟩
    · rename_i fails
      have kept := keys_perform (finishes op done rfl) fails
      refine ⟨le, fun same => (current same).trans ?_⟩
      exact congrArg _ (Dict.sortedKeys_congr kept.symm)
  | list listed =>
    simp only [Store.next, Store.cache, Function.update_apply] at cached ⊢
    split at cached
    · rename_i here
      cases cached
      exact ⟨le_rfl, fun _ => here ▸ coherent.cachedKeys listed⟩
    · exact coherent start gen keys cached
  | heal key sidecar => exact coherent start gen keys cached

/-- In every run in which no operation fails after it has made or removed a key, a list returns
what it would from a fresh walk, whatever `head` makes of the files. -/
theorem listings_fresh {ε M : Type} (disk : Disk C S) {events : List (Event (Store C S) (Action C S))}
    (run : Run Step (.new disk) events s) (finishes : ∀ e ∈ events, Finishes e)
    (head : Disk C S → Key → Except ε M) (start delimiter cont : Key) (maxKeys : Nat) :
    listFrom (head s.disk) start delimiter maxKeys cont (s.cachedKeys start) =
      listFrom (head s.disk) start delimiter maxKeys cont (collectKeys s.disk start) := by
  have coherent : Coherent s := by
    refine run.invariant (I := Coherent) ?_ ?_ finishes
    · intro start gen keys cached
      cases cached
    · exact fun _ _ _ coherent allowed taken => coherent.step allowed taken
  rw [coherent.cachedKeys start]

end Runs

def sampleDisk : Disk Unit Unit := ⟨∅, fun _ => none⟩

def listed : Store Unit Unit := (Store.new sampleDisk).cache []

/-- A put after a list, as far as it gets. -/
def samplePut (done : Nat) : Event (Store Unit Unit) (Action Unit Unit) :=
  ⟨listed, .perform (.write [97] () ()) done, listed.perform (.write [97] () ()) done⟩

theorem run_samplePut (done : Nat) : Run Step (.new sampleDisk)
    [samplePut done, ⟨.new sampleDisk, .list [], listed⟩] (samplePut done).post :=
  (Run.nil.next rfl).next rfl

theorem listings_fresh_after_put :
    listFrom (ε := Unit) .ok [] [] 1000 [] ((samplePut 4).post.cachedKeys []) =
      listFrom .ok [] [] 1000 [] (collectKeys (samplePut 4).post.disk []) := by
  refine listings_fresh sampleDisk (run_samplePut 4) ?_ (fun _ => .ok) [] [] [] 1000
  intro e member op done label _ _
  simp only [List.mem_cons, List.not_mem_nil, or_false] at member
  rcases member with rfl | rfl
  · cases label
    exact le_rfl
  · cases label

/-- After a put whose first sync failed the key is on disk, and not in the list. -/
theorem failed_put_not_listed :
    Run Step (.new sampleDisk) [samplePut 1, ⟨.new sampleDisk, .list [], listed⟩]
        (samplePut 1).post ∧
      listFrom (ε := Unit) .ok [] [] 1000 [] ((samplePut 1).post.cachedKeys []) = .ok {} ∧
      listFrom (ε := Unit) .ok [] [] 1000 [] (collectKeys (samplePut 1).post.disk []) =
        .ok ⟨[[97]], [], []⟩ :=
  ⟨run_samplePut 1, by decide +kernel, by decide +kernel⟩

end BucketVcs.Localfs
