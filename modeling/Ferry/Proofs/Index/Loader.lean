/-
  Ferry.Proofs.Index.Loader

  Loading files in turns through one gate.  Every call of the index is noted with its answer, and
  the index may answer as it likes: it is any index over any world.

  `Move` says once what a step of a loader can do, and `move_outcome` that every step is a move.
-/
import Ferry.Project.Input
import Ferry.Proofs.Turns

namespace Ferry.Index

/-! ## Calls -/

/-- A call of the index with its answer. -/
inductive Call where
  | types (answer : Except IndexError Source.TypeTable)
  | symbols (answer : Except IndexError Source.SymbolTable)
  | refreshTypes (answer : Except IndexError Unit)
  | refreshSymbols (answer : Except IndexError Unit)

namespace Call

def types? : Call → Option (Except IndexError Source.TypeTable)
  | types answer => some answer
  | _ => none

def symbols? : Call → Option (Except IndexError Source.SymbolTable)
  | symbols answer => some answer
  | _ => none

def refreshTypes? : Call → Option (Except IndexError Unit)
  | refreshTypes answer => some answer
  | _ => none

def refreshSymbols? : Call → Option (Except IndexError Unit)
  | refreshSymbols answer => some answer
  | _ => none

def isRefresh : Call → Bool
  | refreshTypes _ | refreshSymbols _ => true
  | types _ | symbols _ => false

end Call

/-- A question to the index that is noted with its answer. -/
def noted {W α : Type} (call : Except IndexError α → Call)
    (ask : StateM W (Except IndexError α)) : StateM (W × List Call) (Except IndexError α) :=
  fun (world, calls) =>
    let (answer, world) := ask world
    (answer, world, calls ++ [call answer])

/-- The index with every call of it noted. -/
def TableSource.noting {W : Type} (index : TableSource (StateM W)) :
    TableSource (StateM (W × List Call)) where
  types path := noted .types (index.types path)
  symbols path := noted .symbols (index.symbols path)
  refreshTypes := noted .refreshTypes index.refreshTypes
  refreshSymbols := noted .refreshSymbols index.refreshSymbols

/-! ## Loaders -/

/-- The loading of one file and the calls made for it. -/
structure Loader where
  path : String
  loading : Loading := .askTypes
  calls : List Call := []

/-- What loaders share: the world that the index answers from, the gate, and all calls made. -/
structure Station (W : Type) where
  world : W
  gate : Gate := .closed
  calls : List Call := []

namespace Loader

variable {W : Type} (index : TableSource (StateM W)) (loader : Loader) (station : Station W)

/-- How far the file comes in one step, with the gate, the world and the calls made. -/
def outcome : (Loading × Gate) × W × List Call :=
  loader.loading.step index.noting loader.path station.gate (station.world, [])

def made : List Call := (loader.outcome index station).2.2

def step : Loader × Station W :=
  let ((loading, gate), world, made) := loader.outcome index station
  ({ loader with loading, calls := loader.calls ++ made },
    { world, gate, calls := station.calls ++ made })

/-- The tables of a file that is loaded, or why it was given up. -/
def result? : Option (Except Project.FileError (Source.TypeTable × Source.SymbolTable)) :=
  loader.loading.result?.map (·.mapError (.index loader.path))

/-- The answers to the questions for types, in order. -/
def typesAnswers : List (Except IndexError Source.TypeTable) :=
  loader.calls.filterMap Call.types?

/-- The answers to the questions for symbols, in order. -/
def symbolsAnswers : List (Except IndexError Source.SymbolTable) :=
  loader.calls.filterMap Call.symbols?

end Loader

/-- Files that nothing has been asked for yet, one loader for each path. -/
def loaders {W : Type} (world : W) (paths : List String) : Crew Loader (Station W) where
  workers := paths.map fun path => { path }
  shared := { world }

/-! ## What a step can do -/

/-- A way through the gate: with the outcome that it holds, or with the one of a refresh, which does
    not go on to the symbols when the types fail. -/
inductive Passes (gate : Gate) : (outcome : Except IndexError Unit) → List Call → Gate → Prop where
  | known {outcome : Except IndexError Unit} (h : gate.outcome = some outcome) :
      Passes gate outcome [] gate
  | typesFail (h : gate.outcome = none) (e : IndexError) :
      Passes gate (.error e) [.refreshTypes (.error e)] ⟨some (.error e)⟩
  | refresh (h : gate.outcome = none) (outcome : Except IndexError Unit) :
      Passes gate outcome [.refreshTypes (.ok ()), .refreshSymbols outcome] ⟨some outcome⟩

/-- Everything a step can do: the calls it makes, and how the gate and the loading change. -/
inductive Move (gate : Gate) : Loading → List Call → Gate → Loading → Prop where
  | askTypes (answer : Except IndexError Source.TypeTable) :
      Move gate .askTypes [.types answer] gate
        (.proceed answer .askSymbols fun _ => .refreshForTypes)
  | passForTypes {outcome : Except IndexError Unit} {calls : List Call} {after : Gate}
      (h : Passes gate outcome calls after) :
      Move gate .refreshForTypes calls after (.proceed outcome (fun _ => .retryTypes) .failed)
  | retryTypes (answer : Except IndexError Source.TypeTable) :
      Move gate .retryTypes [.types answer] gate (.proceed answer .askSymbols .failed)
  | askSymbols (types : Source.TypeTable) (answer : Except IndexError Source.SymbolTable) :
      Move gate (.askSymbols types) [.symbols answer] gate
        (.proceed answer (.loaded types) fun _ => .refreshForSymbols types)
  | passForSymbols (types : Source.TypeTable) {outcome : Except IndexError Unit}
      {calls : List Call} {after : Gate} (h : Passes gate outcome calls after) :
      Move gate (.refreshForSymbols types) calls after
        (.proceed outcome (fun _ => .retrySymbols types) .failed)
  | retrySymbols (types : Source.TypeTable) (answer : Except IndexError Source.SymbolTable) :
      Move gate (.retrySymbols types) [.symbols answer] gate
        (.proceed answer (.loaded types) .failed)
  | stay {loading : Loading} (h : loading.result?.isSome = true) : Move gate loading [] gate loading

section

variable {W : Type} (index : TableSource (StateM W))

theorem refresh_noting_error {world after : W} {e : IndexError}
    (h : index.refreshTypes world = (.error e, after)) (calls : List Call) :
    index.noting.refresh (world, calls) =
      (.error e, after, calls ++ [.refreshTypes (.error e)]) := by
  have htypes : index.noting.refreshTypes (world, calls) =
      (.error e, after, calls ++ [.refreshTypes (.error e)]) := by
    simp only [TableSource.noting, noted, h]
  simp only [TableSource.refresh, bind, StateT.bind, htypes]
  rfl

theorem refresh_noting_ok {world after : W} (h : index.refreshTypes world = (.ok (), after))
    (calls : List Call) :
    index.noting.refresh (world, calls) =
      ((index.refreshSymbols after).1, (index.refreshSymbols after).2,
        calls ++ [.refreshTypes (.ok ())] ++
          [.refreshSymbols (index.refreshSymbols after).1]) := by
  have htypes : index.noting.refreshTypes (world, calls) =
      (.ok (), after, calls ++ [.refreshTypes (.ok ())]) := by
    simp only [TableSource.noting, noted, h]
  simp only [TableSource.refresh, bind, StateT.bind, htypes]
  rfl

theorem passes_refreshOnce (gate : Gate) (world : W) :
    Passes gate (gate.refreshOnce index.noting (world, [])).1.1
      (gate.refreshOnce index.noting (world, [])).2.2
      (gate.refreshOnce index.noting (world, [])).1.2 := by
  unfold Gate.refreshOnce
  cases hgate : gate.outcome with
  | some outcome => exact .known hgate
  | none =>
    show Passes gate (index.noting.refresh (world, [])).1 (index.noting.refresh (world, [])).2.2
      ⟨some (index.noting.refresh (world, [])).1⟩
    obtain ⟨⟨answer, after⟩, hanswer⟩ : ∃ found, index.refreshTypes world = found := ⟨_, rfl⟩
    cases answer with
    | error e =>
      rw [refresh_noting_error index hanswer]
      exact .typesFail hgate e
    | ok _ =>
      rw [refresh_noting_ok index hanswer]
      exact .refresh hgate _

/-- Whatever a step does is one of the moves. -/
theorem move_outcome (loader : Loader) (station : Station W) :
    Move station.gate loader.loading (loader.made index station)
      (loader.outcome index station).1.2 (loader.outcome index station).1.1 := by
  unfold Loader.made Loader.outcome
  have hpass := passes_refreshOnce index station.gate station.world
  cases loader.loading with
  | askTypes => exact .askTypes _
  | refreshForTypes => exact .passForTypes hpass
  | retryTypes => exact .retryTypes _
  | askSymbols types => exact .askSymbols types _
  | refreshForSymbols types => exact .passForSymbols types hpass
  | retrySymbols types => exact .retrySymbols types _
  | loaded types symbols => exact .stay rfl
  | failed e => exact .stay rfl

end

theorem Passes.eq_of_outcome {gate after : Gate} {outcome held : Except IndexError Unit}
    {calls : List Call} (h : Passes gate outcome calls after) (hgate : gate.outcome = some held) :
    outcome = held ∧ after = gate := by
  cases h with
  | known h => exact ⟨Option.some.inj (h.symm.trans hgate), rfl⟩
  | typesFail h => exact absurd (h.symm.trans hgate) (by simp)
  | refresh h => exact absurd (h.symm.trans hgate) (by simp)

/-- The gate holds the outcome that one passes with. -/
theorem Passes.outcome_after {gate after : Gate} {outcome : Except IndexError Unit}
    {calls : List Call} (h : Passes gate outcome calls after) : after.outcome = some outcome := by
  cases h with
  | known h => exact h
  | typesFail => rfl
  | refresh => rfl

theorem Passes.filterMap_types? {gate after : Gate} {outcome : Except IndexError Unit}
    {calls : List Call} (h : Passes gate outcome calls after) :
    calls.filterMap Call.types? = [] := by
  cases h <;> rfl

theorem Passes.filterMap_symbols? {gate after : Gate} {outcome : Except IndexError Unit}
    {calls : List Call} (h : Passes gate outcome calls after) :
    calls.filterMap Call.symbols? = [] := by
  cases h <;> rfl

theorem Move.eq_of_outcome {gate after : Gate} {loading next : Loading} {calls : List Call}
    {held : Except IndexError Unit} (h : Move gate loading calls after next)
    (hgate : gate.outcome = some held) : after = gate := by
  cases h with
  | passForTypes h => exact (h.eq_of_outcome hgate).2
  | passForSymbols _ h => exact (h.eq_of_outcome hgate).2
  | _ => rfl

end Ferry.Index
