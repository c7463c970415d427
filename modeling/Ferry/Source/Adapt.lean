/-
  Ferry.Source.Adapt

  Whole files: the readings of every node are put together from those of its children, the nodes of
  a file are read in order, and what they come to is sorted into declarations and statements.
  Comments go where the next node goes.
-/
import Ferry.Program.File
import Ferry.Source.Declaration

namespace Ferry.Source

/-- Reads a node of a block: one to be ignored is left out, code supplied for its place stands in
for it. -/
def readItem (n : Node) (children : List Site) (expr : Adapter Expr) (conditional : Adapter Stmt) :
    Adapter (List Stmt) := do
  let directives := (← read).directives
  if directives.has n.head.offset .ignore then return []
  else
    match directives.payload? n.head.offset .literal with
    | some code =>
      let span := some (← Adapter.place n.head)
      return [.expression (.code code { span }) span]
    | none =>
      if n.kind.isDeclaration then readDeclaration n children
      else readStatement n children expr conditional

/-- The readings of a node from those of its children. -/
def Site.ofParts (n : Node) (children : List Site) : Site :=
  let expr := readExpr n children
  let conditional := readIf n children
  { node := n
    children
    expr
    item := readItem n children expr conditional
    operators := readOperators n children expr
    pattern := readPattern n children
    loopVariable := readLoopVariable n children
    conditional }

namespace Node

mutual

def site : Node → Site
  | .node head children => Site.ofParts (.node head children) (sites children)

def sites : List Node → List Site
  | [] => []
  | n :: rest => site n :: sites rest

end

theorem sites_eq_map (nodes : List Node) : sites nodes = nodes.map site := by
  induction nodes with
  | nil => rfl
  | cons n rest ih => simp [sites, ih]

theorem site_eq (n : Node) : n.site = Site.ofParts n (n.children.map site) := by
  cases n with
  | node head children =>
    simp [site, sites_eq_map, Node.children]

/-- The nodes of a file; any other node is a file of its own. -/
def fileNodes (n : Node) : List Node :=
  if n.kind = .sourceFile then n.children else [n]

end Node

/-! ## Files -/

/-- What has been read of a file: its declarations and statements, and comments that wait for the
node after them. -/
structure FileParts where
  declarations : List Stmt := []
  statements : List Stmt := []
  comments : List Stmt := []

namespace FileParts

def add (parts : FileParts) (kind : NodeKind) (stmts : List Stmt) : FileParts :=
  if kind = .comment then { parts with comments := parts.comments ++ stmts }
  else if kind.isDeclaration then
    { parts with declarations := parts.declarations ++ parts.comments ++ stmts, comments := [] }
  else { parts with statements := parts.statements ++ parts.comments ++ stmts, comments := [] }

/-- Comments at the end are statements. -/
def close (parts : FileParts) : FileParts :=
  { parts with statements := parts.statements ++ parts.comments, comments := [] }

end FileParts

def readParts : FileParts → List Node → Adapter FileParts
  | parts, [] => return parts
  | parts, n :: rest => do
    let stmts ← n.site.item
    readParts (parts.add n.kind stmts) rest

/-- The file of a path before anything of it is read: it only knows where its output goes. -/
def outlinedFile (path : String) (directives : DirectiveTable) : SourceFile :=
  ((directives.all .output).filterMap Directive.payload).foldl SourceFile.addOutput { path }

def readFile (path : String) (root : Node) : Adapter SourceFile := do
  let outline := outlinedFile path (← read).directives
  let parts := (← readParts {} root.fileNodes).close
  let left ← flushPending
  return { outline with
    declarations := parts.declarations ++ left
    statements := parts.statements }

/-- A file as a program tree, with what came up while it was read. -/
structure Adaptation where
  file : SourceFile
  warnings : List Diagnostic
  /-- The origins known afterwards, if they are shared. -/
  origins : Option OriginCache
  isOutOfBounds : Bool

/-- The reading of a syntax tree with its side tables, which waits for origins to be shared. -/
def reading (path : String) (root : Node) (tables : SideTables) :
    Exchange (SourceFile × AdapterState) :=
  ((readFile path root).run tables).run {}

/-- Reads a syntax tree with its side tables, and with origins that other files recorded. -/
def adapt (path : String) (root : Node) (tables : SideTables)
    (origins : Option OriginCache := none) : Adaptation :=
  match origins with
  | some cache =>
    let ((file, state), cache) := (reading path root tables).run cache
    { file, warnings := state.warnings, origins := some cache,
      isOutOfBounds := state.isOutOfBounds }
  | none =>
    let (file, state) := (reading path root tables).alone
    { file, warnings := state.warnings, origins := none, isOutOfBounds := state.isOutOfBounds }

end Ferry.Source
