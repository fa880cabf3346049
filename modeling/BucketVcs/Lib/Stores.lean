import Mathlib.Tactic.Common

/-! Programs that read and write several named stores, and what their results can depend
on. -/

namespace Stores

open List

/-- A program that uses stores named by `S`, with keys `K` and values `V`. -/
inductive Prog (S K V : Type) (R : Type) where
  | done (result : R)
  | get (store : S) (key : K) (next : Option V → Prog S K V R)
  | put (store : S) (key : K) (value : V) (next : Prog S K V R)

variable {S K V R Q : Type}

def Prog.bind (p : Prog S K V R) (next : R → Prog S K V Q) : Prog S K V Q :=
  match p with
  | .done result => next result
  | .get store key rest => .get store key fun found => (rest found).bind next
  | .put store key value rest => .put store key value (rest.bind next)

instance : Monad (Prog S K V) where
  pure := .done
  bind := .bind

def read (store : S) (key : K) : Prog S K V (Option V) := .get store key .done

def write (store : S) (key : K) (value : V) : Prog S K V Unit := .put store key value (.done ())

variable {store : S} {p : Prog S K V R} {middle : R} {next : R → Prog S K V Q}

def Prog.Begins (store : S) : Prog S K V R → Prop
  | .get other _ _ => other = store
  | _ => False

theorem Prog.Begins.bind (begins : p.Begins store) (next : R → Prog S K V Q) :
    (p >>= next).Begins store := by
  cases p with
  | get other key rest => exact begins
  | done result | put other key value rest => exact begins.elim

abbrev Contents (S K V : Type) := S → K → Option V

/-- How a run ends: its result, what the stores hold then, and what it used. -/
structure Outcome (S K V R : Type) where
  result : R
  stores : Contents S K V
  accesses : List (S × K)

variable [DecidableEq S] [DecidableEq K]

def assign (stores : Contents S K V) (store : S) (key : K) (value : V) : Contents S K V :=
  Function.update stores store (Function.update (stores store) key (some value))

def run : Prog S K V R → Contents S K V → Outcome S K V R
  | .done result, stores => ⟨result, stores, []⟩
  | .get store key next, stores =>
    let rest := run (next (stores store key)) stores
    { rest with accesses := (store, key) :: rest.accesses }
  | .put store key value next, stores =>
    let rest := run next (assign stores store key value)
    { rest with accesses := (store, key) :: rest.accesses }

theorem run_bind (p : Prog S K V R) (next : R → Prog S K V Q) (stores : Contents S K V) :
    run (p >>= next) stores =
      { run (next (run p stores).result) (run p stores).stores with
        accesses := (run p stores).accesses ++
          (run (next (run p stores).result) (run p stores).stores).accesses } := by
  change run (p.bind next) stores = _
  induction p generalizing stores with
  | done result => rfl
  | get store key rest ih | put store key value rest ih => simp [Prog.bind, run, ih]

def Outcome.Within (visible : S → Prop) (outcome : Outcome S K V R) : Prop :=
  ∀ access ∈ outcome.accesses, visible access.1

theorem Prog.Begins.accesses (begins : p.Begins store) (stores : Contents S K V) :
    ∃ access ∈ (run p stores).accesses, access.1 = store := by
  cases p with
  | get other key rest => exact ⟨(other, key), mem_cons_self, begins⟩
  | done result | put other key value rest => exact begins.elim

/-- The run only reads, from one store, and comes to `result`. -/
structure Reads (store : S) (stores : Contents S K V) (p : Prog S K V R) (result : R) : Prop where
  ends : (run p stores).result = result
  keeps : (run p stores).stores = stores
  within : (run p stores).Within (· = store)

theorem Reads.pure (store : S) (stores : Contents S K V) (result : R) :
    Reads store stores (pure result) result :=
  ⟨rfl, rfl, fun _ member => absurd member not_mem_nil⟩

theorem Reads.read (store : S) (stores : Contents S K V) (key : K) :
    Reads store stores (read store key) (stores store key) := by
  refine ⟨rfl, rfl, fun access member => ?_⟩
  obtain rfl := mem_singleton.mp member
  rfl

variable {stores : Contents S K V}

section

variable (first : Reads store stores p middle)
include first

theorem Reads.run_bind (next : R → Prog S K V Q) :
    run (p >>= next) stores = { run (next middle) stores with
      accesses := (run p stores).accesses ++ (run (next middle) stores).accesses } := by
  rw [Stores.run_bind, first.ends, first.keeps]

theorem Reads.then_accesses {other : S} (begins : (next middle).Begins other) :
    ∃ access ∈ (run (p >>= next) stores).accesses, access.1 = other := by
  obtain ⟨access, member, same⟩ := begins.accesses stores
  rw [first.run_bind]
  exact ⟨access, mem_append_right _ member, same⟩

theorem Reads.bind {result : Q}
    (rest : Reads store stores (next middle) result) : Reads store stores (p >>= next) result := by
  have joined := first.run_bind next
  refine ⟨?_, ?_, ?_⟩
  · rw [joined]
    exact rest.ends
  · rw [joined]
    exact rest.keeps
  · intro access member
    rw [joined] at member
    rcases mem_append.mp member with early | late
    · exact first.within access early
    · exact rest.within access late

end

end Stores
