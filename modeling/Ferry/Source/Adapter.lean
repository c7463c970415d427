/-
  Ferry.Source.Adapter

  The setting in which syntax is read: side tables are looked up, origins of names are recorded,
  warnings are gathered, and bindings wait for their declarations. Nothing fails here. A node that
  cannot be read becomes an error node with a snapshot of the subtree, and reading goes on around
  it.

  Places are 32-bit offsets. A node that reaches beyond them has no place; that one was asked for is
  remembered.
-/
import Ferry.Program.Basic
import Ferry.Source.Exchange
import Ferry.Source.Node

namespace Ferry.Source

/-- Bindings that wait for the declarations of their names. -/
abbrev Pending := List Variable

structure AdapterState where
  warnings : List Diagnostic := []
  /-- The pending bindings of the block that is being read. -/
  pending : Pending := []
  /-- Whether a place beyond all offsets was asked for. -/
  isOutOfBounds : Bool := false

/-- Reading syntax against side tables, with origins that are shared with other files. -/
abbrev Adapter := ReaderT SideTables (StateT AdapterState Exchange)

/-- The end of all places. -/
def offsetLimit : Nat := Nat.pow 2 32

namespace Adapter

def place (head : NodeHead) : Adapter Span := do
  if offsetLimit ≤ head.span.stop then
    modify fun state => { state with isOutOfBounds := true }
  return head.span

/-- A diagnostic about a node, with the place and a snapshot of it. -/
def diagnostic (n : Node) (code : Code) (message : String) : Adapter Diagnostic := do
  let span ← place n.head
  return { Diagnostic.ofCode code message with span := some span, snapshot := some n.snapshot }

def errorExpr (n : Node) (code : Code) (message : String) : Adapter Expr := do
  let found ← diagnostic n code message
  return .error found (some n.head.span)

def errorStmt (n : Node) (code : Code) (message : String) : Adapter Stmt := do
  let found ← diagnostic n code message
  return .errorStmt found (some n.head.span)

def warn (n : Node) (code : Code) (message : String) : Adapter Unit := do
  let span ← place n.head
  modify fun state =>
    { state with warnings := state.warnings ++ [(Diagnostic.ofCode code message).placed span] }

def setPending (pending : Pending) : Adapter Unit :=
  modify fun state => { state with pending }

/-- Takes all pending bindings away. -/
def takePending : Adapter Pending := do
  let pending := (← get).pending
  setPending []
  return pending

/-- The type of exactly the range of a node. -/
def typeOf (head : NodeHead) : Adapter (Option String) := do
  return (← read).types.get? head.offset head.length

/-- The type and the place of a node, as an expression carries them. -/
def info (head : NodeHead) : Adapter Info := do
  return { ty := ← typeOf head, span := some (← place head) }

/-- Whether the name at an offset refers into the standard library. Its own entry decides, and is
recorded; without one what was recorded for the name does. -/
def isLibrary (offset : Nat) (name : String) : Adapter Bool := do
  match (← read).symbols.get? offset with
  | some entry =>
    Exchange.tell name entry.origin
    return entry.isLibrary
  | none => Exchange.hear name

end Adapter

end Ferry.Source
