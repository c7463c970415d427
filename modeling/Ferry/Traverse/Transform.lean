/-
  Ferry.Traverse.Transform

  Bottom-up changes of program trees. A transform says what becomes of one expression, one statement
  and one list of statements whose parts have been changed already; walking applies it everywhere. A
  statement may become several or none, so every list of statements is rebuilt from its parts.
-/
import Ferry.Program.Basic

namespace Ferry

/-- What is to be changed. By default nothing is. -/
structure Transform where
  /-- Whether an expression is walked at all; one that is not stays as it is. -/
  enters : Expr → Bool := fun _ => true
  /-- Whether the parts of a statement are walked. -/
  descends : Stmt → Bool := fun _ => true
  /-- What becomes of an expression; `called` holds for the callee of a call. -/
  expr : (called : Bool) → Expr → Expr := fun _ e => e
  /-- What becomes of a statement; `owner` names the innermost type declaration around it. -/
  stmt : (owner : Option String) → Stmt → List Stmt := fun _ s => [s]
  /-- What becomes of the statements of a list, once each of them has been changed. -/
  block : List Stmt → List Stmt := fun stmts => stmts

namespace Transform

/-- Changes an expression unless it is not entered. -/
def visit (t : Transform) (called : Bool) (e : Expr) (walked : Unit → Expr) : Expr :=
  if t.enters e then t.expr called (walked ()) else e

/-- The statement with its parts changed, unless it is not descended into. -/
def within (t : Transform) (s : Stmt) (walked : Unit → Stmt) : Stmt :=
  if t.descends s then walked () else s

section

variable (t : Transform)

mutual

/-- The expression with everything in it changed. -/
def onExpr (owner : Option String) (called : Bool) : Expr → Expr
  | .literal value info => t.visit called (.literal value info) fun _ => .literal value info
  | .array elements info =>
    t.visit called (.array elements info) fun _ => .array (onExprs owner elements) info
  | .dictionary keys values info =>
    t.visit called (.dictionary keys values info) fun _ =>
      .dictionary (onExprs owner keys) (onExprs owner values) info
  | .name n isLibrary isImplicit info =>
    t.visit called (.name n isLibrary isImplicit info) fun _ => .name n isLibrary isImplicit info
  | .member base n isLibrary style info =>
    t.visit called (.member base n isLibrary style info) fun _ =>
      .member (onExpr owner false base) n isLibrary style info
  | .call callee arguments hasTrailing isPure info =>
    t.visit called (.call callee arguments hasTrailing isPure info) fun _ =>
      .call (onExpr owner true callee) (onExpr owner false arguments) hasTrailing isPure info
  | .closure parameters body info =>
    t.visit called (.closure parameters body info) fun _ =>
      .closure parameters (onStmts owner body) info
  | .subscript base index info =>
    t.visit called (.subscript base index info) fun _ =>
      .subscript (onExpr owner false base) (onExpr owner false index) info
  | .prefixOp op operand info =>
    t.visit called (.prefixOp op operand info) fun _ =>
      .prefixOp op (onExpr owner false operand) info
  | .postfixOp op operand info =>
    t.visit called (.postfixOp op operand info) fun _ =>
      .postfixOp op (onExpr owner false operand) info
  | .binary lhs op rhs info =>
    t.visit called (.binary lhs op rhs info) fun _ =>
      .binary (onExpr owner false lhs) op (onExpr owner false rhs) info
  | .ternary condition yes no info =>
    t.visit called (.ternary condition yes no info) fun _ =>
      .ternary (onExpr owner false condition) (onExpr owner false yes) (onExpr owner false no) info
  | .typeName n info => t.visit called (.typeName n info) fun _ => .typeName n info
  | .tuple elements info =>
    t.visit called (.tuple elements info) fun _ => .tuple (onArguments owner elements) info
  | .shuffle slots info =>
    t.visit called (.shuffle slots info) fun _ => .shuffle (onSlots owner slots) info
  | .paren inner info =>
    t.visit called (.paren inner info) fun _ => .paren (onExpr owner false inner) info
  | .optional inner info =>
    t.visit called (.optional inner info) fun _ => .optional (onExpr owner false inner) info
  | .force inner info =>
    t.visit called (.force inner info) fun _ => .force (onExpr owner false inner) info
  | .interpolation segments info =>
    t.visit called (.interpolation segments info) fun _ =>
      .interpolation (onSegments owner segments) info
  | .code text info => t.visit called (.code text info) fun _ => .code text info
  | .error diagnostic span => t.visit called (.error diagnostic span) fun _ =>
    .error diagnostic span

def onExprs (owner : Option String) : List Expr → List Expr
  | [] => []
  | e :: rest => onExpr owner false e :: onExprs owner rest

def onArguments (owner : Option String) : List Argument → List Argument
  | [] => []
  | ⟨label, value⟩ :: rest => ⟨label, onExpr owner false value⟩ :: onArguments owner rest

def onSlots (owner : Option String) : List Slot → List Slot
  | [] => []
  | .absent label :: rest => .absent label :: onSlots owner rest
  | .present label value :: rest => .present label (onExpr owner false value) :: onSlots owner rest
  | .variadic label values :: rest => .variadic label (onExprs owner values) :: onSlots owner rest

def onSegments (owner : Option String) : List Segment → List Segment
  | [] => []
  | .text text :: rest => .text text :: onSegments owner rest
  | .value e :: rest => .value (onExpr owner false e) :: onSegments owner rest

def onParameters (owner : Option String) : List Parameter → List Parameter
  | [] => []
  | ⟨label, name, ty, none, isVariadic⟩ :: rest =>
    ⟨label, name, ty, none, isVariadic⟩ :: onParameters owner rest
  | ⟨label, name, ty, some value, isVariadic⟩ :: rest =>
    ⟨label, name, ty, some (onExpr owner false value), isVariadic⟩ :: onParameters owner rest

def onBody (owner : Option String) : Option (List Stmt) → Option (List Stmt)
  | none => none
  | some body => some (onStmts owner body)

def onValue (owner : Option String) : Option Expr → Option Expr
  | none => none
  | some e => some (onExpr owner false e)

def onVariable (owner : Option String) : Variable → Variable
  | ⟨name, ty, initializer, isLet, isStatic, getter, setter, access, receiver, span⟩ =>
    ⟨name, ty, onValue owner initializer, isLet, isStatic, onBody owner getter,
      onBody owner setter, access, receiver, span⟩

def onElements (owner : Option String) : List EnumElement → List EnumElement
  | [] => []
  | ⟨name, payload, rawValue, span⟩ :: rest =>
    ⟨name, payload, onValue owner rawValue, span⟩ :: onElements owner rest

def onConditions (owner : Option String) : List Condition → List Condition
  | [] => []
  | .test e :: rest => .test (onExpr owner false e) :: onConditions owner rest
  | .binding item :: rest => .binding (onVariable owner item) :: onConditions owner rest

def onCases (owner : Option String) : List SwitchCase → List SwitchCase
  | [] => []
  | ⟨patterns, body, span⟩ :: rest =>
    ⟨onExprs owner patterns, onStmts owner body, span⟩ :: onCases owner rest

def onTarget (owner : Option String) : Option SwitchTarget → Option SwitchTarget
  | none => none
  | some .returned => some .returned
  | some (.assigned lhs) => some (.assigned (onExpr owner false lhs))
  | some (.declared item) => some (.declared (onVariable owner item))

/-- The error a handler takes, which may be missing. -/
def onHandled (owner : Option String) : Option Variable → Option Variable
  | none => none
  | some item => some (onVariable owner item)

/-- The statement with everything in it changed, but not yet the statement itself. -/
def onStmt (owner : Option String) : Stmt → Stmt
  | .classDecl head isFinal members span =>
    t.within (.classDecl head isFinal members span) fun _ =>
      .classDecl head isFinal (onStmts (some head.name) members) span
  | .structDecl head members span =>
    t.within (.structDecl head members span) fun _ =>
      .structDecl head (onStmts (some head.name) members) span
  | .protocolDecl head members span =>
    t.within (.protocolDecl head members span) fun _ =>
      .protocolDecl head (onStmts owner members) span
  | .enumDecl head kind elements members span =>
    t.within (.enumDecl head kind elements members span) fun _ =>
      .enumDecl head kind (onElements (some head.name) elements)
        (onStmts (some head.name) members) span
  | .extensionDecl extended inherits members span =>
    t.within (.extensionDecl extended inherits members span) fun _ =>
      .extensionDecl extended inherits (onStmts owner members) span
  | .companion members span =>
    t.within (.companion members span) fun _ => .companion (onStmts owner members) span
  | .function head parameters body span =>
    t.within (.function head parameters body span) fun _ =>
      .function head (onParameters owner parameters) (onBody owner body) span
  | .declare item => t.within (.declare item) fun _ => .declare (onVariable owner item)
  | .ifStmt conditions body otherwise isGuard span =>
    t.within (.ifStmt conditions body otherwise isGuard span) fun _ =>
      .ifStmt (onConditions owner conditions) (onStmts owner body) (onBody owner otherwise) isGuard
        span
  | .switchStmt subject cases target span =>
    t.within (.switchStmt subject cases target span) fun _ =>
      .switchStmt (onExpr owner false subject) (onCases owner cases) (onTarget owner target) span
  | .forEach item collection body span =>
    t.within (.forEach item collection body span) fun _ =>
      .forEach (onExpr owner false item) (onExpr owner false collection) (onStmts owner body) span
  | .whileLoop condition body span =>
    t.within (.whileLoop condition body span) fun _ =>
      .whileLoop (onExpr owner false condition) (onStmts owner body) span
  | .doBlock body cleanup span =>
    t.within (.doBlock body cleanup span) fun _ =>
      .doBlock (onStmts owner body) (onStmts owner cleanup) span
  | .catchBlock item body span =>
    t.within (.catchBlock item body span) fun _ =>
      .catchBlock (onHandled owner item) (onStmts owner body) span
  | .deferBlock body span =>
    t.within (.deferBlock body span) fun _ => .deferBlock (onStmts owner body) span
  | .throwStmt value span =>
    t.within (.throwStmt value span) fun _ => .throwStmt (onExpr owner false value) span
  | .returnStmt value span =>
    t.within (.returnStmt value span) fun _ => .returnStmt (onValue owner value) span
  | .assign lhs rhs span =>
    t.within (.assign lhs rhs span) fun _ =>
      .assign (onExpr owner false lhs) (onExpr owner false rhs) span
  | .expression value span =>
    t.within (.expression value span) fun _ => .expression (onExpr owner false value) span
  | .importDecl module span => .importDecl module span
  | .breakStmt span => .breakStmt span
  | .continueStmt span => .continueStmt span
  | .comment text span => .comment text span
  | .errorStmt diagnostic span => .errorStmt diagnostic span

/-- Each statement changed, and what they become, in order. -/
def flatten (owner : Option String) : List Stmt → List Stmt
  | [] => []
  | s :: rest => t.stmt owner (onStmt owner s) ++ flatten owner rest

/-- The statements of a list changed, and then the list. -/
def onStmts (owner : Option String) : List Stmt → List Stmt
  | [] => t.block []
  | s :: rest => t.block (t.stmt owner (onStmt owner s) ++ flatten owner rest)

end

end

/-- The file changed. Every declaration is a list of its own. -/
def onFile (t : Transform) (file : SourceFile) : SourceFile :=
  { file with
    declarations := file.declarations.flatMap fun s => t.onStmts none [s]
    statements := t.onStmts none file.statements }

end Transform

end Ferry
