/-
  Ferry.Source.Site

  A node together with everything it may be read as: an expression, a statement of a block, a part
  of an operator sequence, a pattern, a loop variable, an `if`. What a node is read as is decided by
  the node around it, so each reading waits until it is asked for.

  The readings of a node are put together from those of its children.
-/
import Ferry.Program.View
import Ferry.Source.Adapter
import Ferry.Source.Fold

namespace Ferry.Source

inductive PatternContext where
  /-- Directly under a `switch` case, which compares a bare value with the subject itself. -/
  | switchCase
  /-- Inside another pattern or a condition. -/
  | condition
deriving DecidableEq, Repr

/-- A name bound by a pattern, with what it stands for. -/
structure PatternVariable where
  name : String
  value : Expr
  isLet : Bool

/-- What a pattern means for a subject: the test whether it matches, none if it always does, and the
names it binds. -/
structure PatternMatch where
  condition : Option Expr := none
  bindings : List PatternVariable := []

structure Site where
  node : Node
  children : List Site
  expr : Adapter Expr
  /-- As a declaration or statement of a block in which bindings may be pending. -/
  item : Adapter (List Stmt)
  /-- As a part of an operator sequence, which may be several items of it. -/
  operators : Adapter (List (SequenceItem Expr))
  /-- As a pattern for a subject; `isLet` tells whether names are bound as constants. -/
  pattern : (subject : Expr) → PatternContext → (isLet : Bool) →
    ExceptT Diagnostic Adapter PatternMatch
  loopVariable : OptionT Adapter Expr
  conditional : Adapter Stmt

namespace Site

def kind (site : Site) : NodeKind :=
  site.node.kind

def head (site : Site) : NodeHead :=
  site.node.head

def text (site : Site) : String :=
  site.node.text

end Site

def inRole? (children : List Site) (role : String) : Option Site :=
  children.find? (·.head.role == some role)

def ofKind (children : List Site) (kind : NodeKind) : List Site :=
  children.filter (·.kind == kind)

def Site.child? (site : Site) (role : String) : Option Site :=
  inRole? site.children role

/-! ## Blocks -/

def danglingBinding (item : Variable) : Stmt :=
  .errorStmt
    ((Diagnostic.ofCode .danglingBinding
      s!"binding `{item.name}` has no matching declaration").placed item.span) item.span

/-- Reads nodes as declarations and statements, one after the other. -/
def readItems (sites : List Site) : Adapter (List Stmt) := do
  return (← sites.mapM Site.item).flatten

/-- Gives up the bindings that are still pending: each is an error. -/
def flushPending : Adapter (List Stmt) := do
  return (← Adapter.takePending).map danglingBinding

/-- Reads the nodes of a block. The bindings that are pending around it are put aside for the time;
those of its own that are left over at its end are errors. -/
def readBlock (sites : List Site) : Adapter (List Stmt) := do
  let outer ← Adapter.takePending
  let stmts ← readItems sites
  let left ← flushPending
  Adapter.setPending outer
  return stmts ++ left

namespace Site

/-- The nodes of a block; any other node is a block of its own. -/
def blockNodes (site : Site) : List Site :=
  if site.kind = .codeBlock then site.children else [site]

def block (site : Site) : Adapter (List Stmt) :=
  readBlock site.blockNodes

end Site

def blockIn (children : List Site) (role : String) : Adapter (List Stmt) :=
  match inRole? children role with
  | some site => site.block
  | none => return []

end Ferry.Source
