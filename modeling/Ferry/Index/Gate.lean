/-
  Ferry.Index.Gate

  Loading the side tables of files from one index. A query that fails is asked once more after the
  index was refreshed. The index is refreshed at most once for all files: the gate remembers how
  that went, and whoever comes later gets the same outcome.

  Loading can also be taken step by step, where each step asks the index at most once or passes the
  gate once, so that several files may be loaded in turns. Going through all steps of one file at
  once is the same as loading it (`steps_stepLimit`).
-/
import Ferry.Index.Query

namespace Ferry.Index

/-- How the one refresh went, once it has been made. -/
structure Gate where
  outcome : Option (Except IndexError Unit) := none

namespace Gate

/-- The gate nobody has passed. -/
def closed : Gate := {}

def hasRefreshed (gate : Gate) : Bool :=
  gate.outcome.isSome

/-- Refreshes the index unless that has been done, and gives the outcome either way. -/
def refreshOnce {m : Type → Type} [Monad m] (index : TableSource m) (gate : Gate) :
    m (Except IndexError Unit × Gate) :=
  match gate.outcome with
  | some outcome => return (outcome, gate)
  | none => do
    let outcome ← index.refresh
    return (outcome, { outcome := some outcome })

end Gate

/-! ## Loading one file -/

/-- Asks once, and if that fails once more after a refresh. -/
def fetch {m : Type → Type} [Monad m] {α : Type} (index : TableSource m) (gate : Gate)
    (ask : m (Except IndexError α)) : m (Except IndexError α × Gate) := do
  match ← ask with
  | .ok value => return (.ok value, gate)
  | .error _ =>
    let (outcome, gate) ← gate.refreshOnce index
    match outcome with
    | .ok () => return (← ask, gate)
    | .error e => return (.error e, gate)

def load {m : Type → Type} [Monad m] (index : TableSource m) (path : String) (gate : Gate) :
    m (Except IndexError (Source.TypeTable × Source.SymbolTable) × Gate) := do
  let (types, gate) ← fetch index gate (index.types path)
  match types with
  | .error e => return (.error e, gate)
  | .ok types =>
    let (symbols, gate) ← fetch index gate (index.symbols path)
    return (symbols.map fun symbols => (types, symbols), gate)

/-! ## Step by step -/

inductive Loading where
  | askTypes
  | refreshForTypes
  | retryTypes
  | askSymbols (types : Source.TypeTable)
  | refreshForSymbols (types : Source.TypeTable)
  | retrySymbols (types : Source.TypeTable)
  | loaded (types : Source.TypeTable) (symbols : Source.SymbolTable)
  | failed (error : IndexError)

namespace Loading

/-- Goes on with what was asked for, or on another way if it failed. -/
def proceed {α : Type} (answer : Except IndexError α) (next : α → Loading)
    (otherwise : IndexError → Loading) : Loading :=
  match answer with
  | .ok value => next value
  | .error e => otherwise e

def step {m : Type → Type} [Monad m] (index : TableSource m) (path : String) (gate : Gate) :
    Loading → m (Loading × Gate)
  | askTypes => do
    return (proceed (← index.types path) askSymbols fun _ => refreshForTypes, gate)
  | refreshForTypes => do
    let (outcome, gate) ← gate.refreshOnce index
    return (proceed outcome (fun _ => retryTypes) failed, gate)
  | retryTypes => do
    return (proceed (← index.types path) askSymbols failed, gate)
  | askSymbols types => do
    return (proceed (← index.symbols path) (loaded types) fun _ => refreshForSymbols types, gate)
  | refreshForSymbols types => do
    let (outcome, gate) ← gate.refreshOnce index
    return (proceed outcome (fun _ => retrySymbols types) failed, gate)
  | retrySymbols types => do
    return (proceed (← index.symbols path) (loaded types) failed, gate)
  | loaded types symbols => return (loaded types symbols, gate)
  | failed e => return (failed e, gate)

def steps {m : Type → Type} [Monad m] (index : TableSource m) (path : String) :
    (count : Nat) → Gate → Loading → m (Loading × Gate)
  | 0, gate, loading => return (loading, gate)
  | count + 1, gate, loading => do
    let (loading, gate) ← loading.step index path gate
    steps index path count gate loading

/-- No file takes more steps than this. -/
def stepLimit : Nat := 6

def stepsLeft : Loading → Nat
  | askTypes => 6
  | refreshForTypes => 5
  | retryTypes => 4
  | askSymbols _ => 3
  | refreshForSymbols _ => 2
  | retrySymbols _ => 1
  | loaded _ _ | failed _ => 0

/-- The tables of a file that is loaded, or why it is not. -/
def result? : Loading → Option (Except IndexError (Source.TypeTable × Source.SymbolTable))
  | loaded types symbols => some (.ok (types, symbols))
  | failed e => some (.error e)
  | _ => none

/-- Only a finished file has no steps left. -/
theorem result?_isSome_iff (loading : Loading) :
    loading.result?.isSome = true ↔ loading.stepsLeft = 0 := by
  cases loading <;> simp [result?, stepsLeft]

variable {m : Type → Type} [Monad m] [LawfulMonad m] (index : TableSource m) (path : String)
  (count : Nat) (gate : Gate)

/-- A file that is finished stays as it is. -/
theorem steps_of_stepsLeft_eq_zero (loading : Loading) (h : loading.stepsLeft = 0) :
    steps index path count gate loading = pure (loading, gate) := by
  induction count with
  | zero => rfl
  | succ count ih =>
    cases loading <;> simp [stepsLeft] at h <;> simp [steps, step, ih]

@[simp] theorem steps_loaded (types : Source.TypeTable) (symbols : Source.SymbolTable) :
    steps index path count gate (loaded types symbols) = pure (loaded types symbols, gate) :=
  steps_of_stepsLeft_eq_zero index path count gate (loaded types symbols) rfl

@[simp] theorem steps_failed (e : IndexError) :
    steps index path count gate (failed e) = pure (failed e, gate) :=
  steps_of_stepsLeft_eq_zero index path count gate (failed e) rfl

omit [LawfulMonad m] in
theorem steps_succ (loading : Loading) :
    steps index path (count + 1) gate loading =
      loading.step index path gate >>= fun r => steps index path count r.2 r.1 :=
  rfl

/-- The steps that are left once the types are there fetch the symbols. -/
theorem steps_askSymbols (types : Source.TypeTable) :
    (fun r => (r.1.result?, r.2)) <$> steps index path (count + 3) gate (askSymbols types) =
      (fun r => (some (r.1.map fun symbols => (types, symbols)), r.2)) <$>
        fetch index gate (index.symbols path) := by
  rw [steps_succ]
  simp only [step, fetch, map_bind, bind_assoc, pure_bind]
  refine bind_congr fun answer => ?_
  cases answer with
  | ok symbols => simp [proceed, result?, Except.map]
  | error _ =>
    -- The first question failed, so the gate is passed.
    simp only [proceed]
    rw [steps_succ]
    simp only [step, map_bind, bind_assoc, pure_bind]
    refine bind_congr fun ⟨outcome, gate⟩ => ?_
    cases outcome with
    | error _ => simp [proceed, result?, Except.map]
    | ok _ =>
      -- The index has been refreshed and is asked once more.
      simp only [proceed]
      rw [steps_succ]
      simp only [step, map_bind, bind_assoc, pure_bind]
      refine bind_congr fun answer => ?_
      cases answer <;> simp [proceed, result?, Except.map]

/-- All steps of one file together load it. -/
theorem steps_stepLimit :
    (fun r => (r.1.result?, r.2)) <$> steps index path stepLimit gate .askTypes =
      (fun r => (some r.1, r.2)) <$> load index path gate := by
  have rest (count : Nat) (gate : Gate) (types : Source.TypeTable) :=
    steps_askSymbols index path count gate types
  simp only [map_eq_pure_bind] at rest
  rw [stepLimit, steps_succ]
  simp only [step, load, fetch, map_bind, bind_assoc, pure_bind]
  refine bind_congr fun answer => ?_
  cases answer with
  | ok types =>
    simp only [proceed, map_eq_pure_bind, pure_bind, bind_assoc, rest]
    simp [fetch]
  | error _ =>
    -- The types are not there yet: the gate is passed, and they are asked for again.
    simp only [proceed, bind_assoc]
    rw [steps_succ]
    simp only [step, map_bind, bind_assoc, pure_bind]
    refine bind_congr fun ⟨outcome, gate⟩ => ?_
    cases outcome with
    | error _ => simp [proceed, result?]
    | ok _ =>
      simp only [proceed, bind_assoc, pure_bind]
      rw [steps_succ]
      simp only [step, map_bind, bind_assoc, pure_bind]
      refine bind_congr fun answer => ?_
      cases answer with
      | error _ => simp [proceed, result?]
      | ok types =>
        simp only [proceed, map_eq_pure_bind, pure_bind, bind_assoc, rest]
        simp [fetch]

end Loading

end Ferry.Index
