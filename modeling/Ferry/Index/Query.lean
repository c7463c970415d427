/-
  Ferry.Index.Query

  The index that side tables come from. It can be asked for the types and the symbols of a file, and
  it can be told to rebuild what it answers from. Any of this may fail.
-/
import Ferry.Source.Table

namespace Ferry.Index

inductive IndexError where
  | types (cause : String)
  | symbols (cause : String)
  | refresh (cause : String)
deriving DecidableEq, Repr

def IndexError.message : IndexError → String
  | types cause => "type query failed: " ++ cause
  | symbols cause => "symbol query failed: " ++ cause
  | refresh cause => "refreshing upstream inputs failed: " ++ cause

/-- Where side tables come from, asked in a monad. -/
structure TableSource (m : Type → Type) where
  types : (path : String) → m (Except IndexError Source.TypeTable)
  symbols : (path : String) → m (Except IndexError Source.SymbolTable)
  /-- Rebuilds what types are answered from. -/
  refreshTypes : m (Except IndexError Unit)
  /-- Rebuilds what symbols are answered from. -/
  refreshSymbols : m (Except IndexError Unit)

/-- Rebuilds everything, the symbols only after the types. -/
def TableSource.refresh {m : Type → Type} [Monad m] (index : TableSource m) :
    m (Except IndexError Unit) := do
  match ← index.refreshTypes with
  | .error e => return .error e
  | .ok () => index.refreshSymbols

end Ferry.Index
