/-
  Ferry.Program.Basic

  The program tree: statements and expressions between the source language and the target. Every
  expression carries its resolved type and its place, every statement its place. A node that could
  not be understood is an error node holding its diagnostic.

  The slots of an argument shuffle hold their own expressions, so that no slot can be left without
  the arguments its kind asks for.
-/
import Ferry.Diagnostic.Basic
import Ferry.Number.Binary

namespace Ferry

/-- A literal value. Strings and characters keep the text between the quotes. -/
inductive Literal where
  | int (value : Int)
  | uint (value : Nat)
  | double (value : Number.Binary)
  | float (value : Number.Binary)
  | bool (value : Bool)
  | string (text : String)
  | character (text : String)
  | nil
deriving DecidableEq

/-- Whether the cases of an enumeration carry values. -/
inductive EnumKind where
  | payloadFree
  | hasPayload
deriving DecidableEq

/-- What every expression carries beside its shape. -/
structure Info where
  ty : Option String := none
  span : Option Span := none
deriving DecidableEq

structure ClosureParameter where
  name : String
  ty : Option String := none
deriving DecidableEq

/-- What declarations of types have in common. -/
structure TypeHead where
  name : String
  generics : List String := []
  inherits : List String := []
  access : Option String := none
deriving DecidableEq

inductive FunctionKind where
  | function
  | initializer (failable : Bool)
deriving DecidableEq

/-- A function declaration without its parameters and body. -/
structure FunctionHead where
  name : String
  kind : FunctionKind := .function
  generics : List String := []
  returns : Option String := none
  access : Option String := none
  isStatic : Bool := false
  isOverride : Bool := false
  isMutating : Bool := false
  isThrowing : Bool := false
  isPure : Bool := false
  /-- The type a member declared outside of it belongs to. -/
  receiver : Option String := none
deriving DecidableEq

/-- A value carried by an enumeration case. -/
structure PayloadField where
  label : Option String
  ty : String
deriving DecidableEq

mutual

inductive Expr where
  | literal (value : Literal) (info : Info)
  | array (elements : List Expr) (info : Info)
  | dictionary (keys values : List Expr) (info : Info)
  /-- A reference to a declaration by name. -/
  | name (name : String) (isLibrary isImplicit : Bool) (info : Info)
  | member (base : Expr) (name : String) (isLibrary : Bool) (style : Option EnumKind) (info : Info)
  | call (callee arguments : Expr) (hasTrailing isPure : Bool) (info : Info)
  | closure (parameters : List ClosureParameter) (body : List Stmt) (info : Info)
  | subscript (base index : Expr) (info : Info)
  | prefixOp (op : String) (operand : Expr) (info : Info)
  | postfixOp (op : String) (operand : Expr) (info : Info)
  | binary (lhs : Expr) (op : String) (rhs : Expr) (info : Info)
  | ternary (condition yes no : Expr) (info : Info)
  | typeName (name : String) (info : Info)
  | tuple (elements : List Argument) (info : Info)
  /-- Arguments reordered onto the parameters of the callee. -/
  | shuffle (slots : List Slot) (info : Info)
  | paren (inner : Expr) (info : Info)
  | optional (inner : Expr) (info : Info)
  | force (inner : Expr) (info : Info)
  | interpolation (segments : List Segment) (info : Info)
  /-- Text of the target language, kept as it is. -/
  | code (text : String) (info : Info)
  | error (diagnostic : Diagnostic) (span : Option Span)

structure Argument where
  label : Option String
  value : Expr

/-- One parameter's share of the arguments of a call. -/
inductive Slot where
  /-- The parameter takes its default. -/
  | absent (label : Option String)
  | present (label : Option String) (value : Expr)
  | variadic (label : Option String) (values : List Expr)

inductive Segment where
  | text (text : String)
  | value (value : Expr)

structure Parameter where
  label : Option String
  name : String
  ty : String
  default : Option Expr
  isVariadic : Bool

/-- A stored or computed variable, constant or property. -/
structure Variable where
  name : String
  ty : Option String
  initializer : Option Expr
  isLet : Bool
  isStatic : Bool
  getter : Option (List Stmt)
  setter : Option (List Stmt)
  access : Option String
  receiver : Option String
  span : Option Span

structure EnumElement where
  name : String
  payload : List PayloadField
  rawValue : Option Expr
  span : Option Span

/-- A condition of an `if` or `guard`: a test, or a binding that must yield a value. -/
inductive Condition where
  | test (value : Expr)
  | binding (item : Variable)

/-- A case of a `switch`; without patterns it is the default. -/
structure SwitchCase where
  patterns : List Expr
  body : List Stmt
  span : Option Span

/-- What becomes of the value of a `switch` that yields one. -/
inductive SwitchTarget where
  | returned
  | assigned (lhs : Expr)
  | declared (item : Variable)

inductive Stmt where
  | importDecl (module : String) (span : Option Span)
  | classDecl (head : TypeHead) (isFinal : Bool) (members : List Stmt) (span : Option Span)
  | structDecl (head : TypeHead) (members : List Stmt) (span : Option Span)
  | protocolDecl (head : TypeHead) (members : List Stmt) (span : Option Span)
  | enumDecl (head : TypeHead) (kind : Option EnumKind) (elements : List EnumElement)
      (members : List Stmt) (span : Option Span)
  | extensionDecl (extended : String) (inherits : List String) (members : List Stmt)
      (span : Option Span)
  | companion (members : List Stmt) (span : Option Span)
  | function (head : FunctionHead) (parameters : List Parameter) (body : Option (List Stmt))
      (span : Option Span)
  | declare (item : Variable)
  | ifStmt (conditions : List Condition) (body : List Stmt) (otherwise : Option (List Stmt))
      (isGuard : Bool) (span : Option Span)
  | switchStmt (subject : Expr) (cases : List SwitchCase) (target : Option SwitchTarget)
      (span : Option Span)
  | forEach (item collection : Expr) (body : List Stmt) (span : Option Span)
  | whileLoop (condition : Expr) (body : List Stmt) (span : Option Span)
  | doBlock (body cleanup : List Stmt) (span : Option Span)
  | catchBlock (item : Option Variable) (body : List Stmt) (span : Option Span)
  | deferBlock (body : List Stmt) (span : Option Span)
  | throwStmt (value : Expr) (span : Option Span)
  | returnStmt (value : Option Expr) (span : Option Span)
  | breakStmt (span : Option Span)
  | continueStmt (span : Option Span)
  | assign (lhs rhs : Expr) (span : Option Span)
  | expression (value : Expr) (span : Option Span)
  | comment (text : String) (span : Option Span)
  | errorStmt (diagnostic : Diagnostic) (span : Option Span)

end

structure SourceFile where
  path : String
  declarations : List Stmt := []
  statements : List Stmt := []
  /-- Where the file asks its output to go, by the extension of the path. -/
  outputs : List (String × String) := []

end Ferry
