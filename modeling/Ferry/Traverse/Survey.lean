/-
  Ferry.Traverse.Survey

  Collecting findings from program trees, in the order in which the parts of a tree are read.
-/
import Ferry.Program.Basic

namespace Ferry

/-- What is looked for. By default everything is entered and nothing is found. -/
structure Survey (α : Type) where
  enters : Expr → Bool := fun _ => true
  /-- What an expression itself shows, after what its parts show. -/
  expr : Expr → List α := fun _ => []
  /-- What a statement itself shows, before what its parts show. -/
  before : Stmt → List α := fun _ => []
  /-- What a statement itself shows, after what its parts show. -/
  after : Stmt → List α := fun _ => []
  /-- Whether the entries of a dictionary are read in pairs, so that a key without a value is left
  out; else all keys are read before all values. -/
  paired : Bool := false
  /-- Whether the arguments of a call are read before its callee. -/
  argumentsFirst : Bool := false

namespace Survey

/-- What an expression shows, unless it is not entered. -/
def visit {α : Type} (s : Survey α) (e : Expr) (parts : Unit → List α) : List α :=
  if s.enters e then parts () ++ s.expr e else []

section

variable {α : Type} (s : Survey α)

mutual

def ofExpr : Expr → List α
  | .literal value info => s.visit (.literal value info) fun _ => []
  | .array elements info =>
    s.visit (.array elements info) fun _ => (ofExprs elements).flatten
  | .dictionary keys values info =>
    s.visit (.dictionary keys values info) fun _ =>
      if s.paired then
        (List.zipWith (fun key value => key ++ value) (ofExprs keys) (ofExprs values)).flatten
      else (ofExprs keys).flatten ++ (ofExprs values).flatten
  | .name n isLibrary isImplicit info => s.visit (.name n isLibrary isImplicit info) fun _ => []
  | .member base n isLibrary style info =>
    s.visit (.member base n isLibrary style info) fun _ => ofExpr base
  | .call callee arguments hasTrailing isPure info =>
    s.visit (.call callee arguments hasTrailing isPure info) fun _ =>
      if s.argumentsFirst then ofExpr arguments ++ ofExpr callee
      else ofExpr callee ++ ofExpr arguments
  | .closure parameters body info => s.visit (.closure parameters body info) fun _ => ofStmts body
  | .subscript base index info =>
    s.visit (.subscript base index info) fun _ => ofExpr base ++ ofExpr index
  | .prefixOp op operand info => s.visit (.prefixOp op operand info) fun _ => ofExpr operand
  | .postfixOp op operand info => s.visit (.postfixOp op operand info) fun _ => ofExpr operand
  | .binary lhs op rhs info => s.visit (.binary lhs op rhs info) fun _ => ofExpr lhs ++ ofExpr rhs
  | .ternary condition yes no info =>
    s.visit (.ternary condition yes no info) fun _ => ofExpr condition ++ ofExpr yes ++ ofExpr no
  | .typeName n info => s.visit (.typeName n info) fun _ => []
  | .tuple elements info => s.visit (.tuple elements info) fun _ => ofArguments elements
  | .shuffle slots info => s.visit (.shuffle slots info) fun _ => ofSlots slots
  | .paren inner info => s.visit (.paren inner info) fun _ => ofExpr inner
  | .optional inner info => s.visit (.optional inner info) fun _ => ofExpr inner
  | .force inner info => s.visit (.force inner info) fun _ => ofExpr inner
  | .interpolation segments info =>
    s.visit (.interpolation segments info) fun _ => ofSegments segments
  | .code text info => s.visit (.code text info) fun _ => []
  | .error diagnostic span => s.visit (.error diagnostic span) fun _ => []

/-- Findings in expressions, kept apart. -/
def ofExprs : List Expr → List (List α)
  | [] => []
  | e :: rest => ofExpr e :: ofExprs rest

def ofArguments : List Argument → List α
  | [] => []
  | ⟨_, value⟩ :: rest => ofExpr value ++ ofArguments rest

def ofSlots : List Slot → List α
  | [] => []
  | .absent _ :: rest => ofSlots rest
  | .present _ value :: rest => ofExpr value ++ ofSlots rest
  | .variadic _ values :: rest => (ofExprs values).flatten ++ ofSlots rest

def ofSegments : List Segment → List α
  | [] => []
  | .text _ :: rest => ofSegments rest
  | .value e :: rest => ofExpr e ++ ofSegments rest

def ofParameters : List Parameter → List α
  | [] => []
  | ⟨_, _, _, default, _⟩ :: rest => ofValue default ++ ofParameters rest

def ofBody : Option (List Stmt) → List α
  | none => []
  | some body => ofStmts body

def ofValue : Option Expr → List α
  | none => []
  | some e => ofExpr e

def ofVariable : Variable → List α
  | ⟨_, _, initializer, _, _, getter, setter, _, _, _⟩ =>
    ofValue initializer ++ ofBody getter ++ ofBody setter

def ofElements : List EnumElement → List α
  | [] => []
  | ⟨_, _, rawValue, _⟩ :: rest => ofValue rawValue ++ ofElements rest

def ofConditions : List Condition → List α
  | [] => []
  | .test e :: rest => ofExpr e ++ ofConditions rest
  | .binding item :: rest => ofVariable item ++ ofConditions rest

def ofCases : List SwitchCase → List α
  | [] => []
  | ⟨patterns, body, _⟩ :: rest => (ofExprs patterns).flatten ++ ofStmts body ++ ofCases rest

def ofTarget : Option SwitchTarget → List α
  | some (.assigned lhs) => ofExpr lhs
  | some (.declared item) => ofVariable item
  | some .returned => []
  | none => []

/-- Findings in the error a handler takes. -/
def ofHandled : Option Variable → List α
  | none => []
  | some item => ofVariable item

def ofParts : Stmt → List α
  | .classDecl _ _ members _ => ofStmts members
  | .structDecl _ members _ => ofStmts members
  | .protocolDecl _ members _ => ofStmts members
  | .enumDecl _ _ elements members _ => ofElements elements ++ ofStmts members
  | .extensionDecl _ _ members _ => ofStmts members
  | .companion members _ => ofStmts members
  | .function _ parameters body _ => ofParameters parameters ++ ofBody body
  | .declare item => ofVariable item
  | .ifStmt conditions body otherwise _ _ =>
    ofConditions conditions ++ ofStmts body ++ ofBody otherwise
  | .switchStmt subject cases target _ => ofExpr subject ++ ofTarget target ++ ofCases cases
  | .forEach item collection body _ => ofExpr item ++ ofExpr collection ++ ofStmts body
  | .whileLoop condition body _ => ofExpr condition ++ ofStmts body
  | .doBlock body cleanup _ => ofStmts body ++ ofStmts cleanup
  | .catchBlock item body _ => ofHandled item ++ ofStmts body
  | .deferBlock body _ => ofStmts body
  | .throwStmt value _ => ofExpr value
  | .returnStmt value _ => ofValue value
  | .assign lhs rhs _ => ofExpr lhs ++ ofExpr rhs
  | .expression value _ => ofExpr value
  | .importDecl _ _ => []
  | .breakStmt _ => []
  | .continueStmt _ => []
  | .comment _ _ => []
  | .errorStmt _ _ => []

def ofStmts : List Stmt → List α
  | [] => []
  | stmt :: rest => s.before stmt ++ ofParts stmt ++ s.after stmt ++ ofStmts rest

end

end

/-- Findings in a file: in its declarations, then in its statements. -/
def ofFile {α : Type} (s : Survey α) (file : SourceFile) : List α :=
  s.ofStmts file.declarations ++ s.ofStmts file.statements

end Survey

end Ferry
