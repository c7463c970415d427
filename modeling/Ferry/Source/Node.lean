/-
  Ferry.Source.Node

  Syntax trees of the source language as they are delivered: every node has a kind, its place in the
  source text, its own text, and the role it plays in its parent. Whatever a child means is read off
  its kind and role, never off its position.
-/
import Ferry.Diagnostic.Basic
import Ferry.Text.Quoted

namespace Ferry.Source

/-- Kinds of nodes; every other kind is `unknown`. -/
inductive NodeKind where
  -- Files and their parts
  | sourceFile | codeBlock | modifier | comment
  -- Declarations
  | importDecl | classDecl | structDecl | protocolDecl | enumDecl | enumCaseDecl | enumCaseElement
  | extensionDecl | functionDecl | initializerDecl | parameter | genericParameter | inheritedType
  | patternBindingDecl | patternBinding | varDecl | accessor | typeNode
  -- Statements
  | ifStmt | guardStmt | condition | optionalBinding | caseCondition | switchStmt | switchCase
  | caseItem | forInStmt | whileStmt | repeatWhileStmt | doStmt | catchClause | deferStmt
  | throwStmt | returnStmt | breakStmt | continueStmt
  -- Expressions
  | integerLiteral | floatLiteral | stringLiteral | booleanLiteral | nilLiteral
  | interpolatedString | stringSegment | arrayLiteral | dictionaryLiteral | dictionaryElement
  | declRef | memberAccess | call | argument | closure | closureParameter | subscript
  | prefixOperator | postfixOperator | sequence | binaryOperator | ternaryOperator | ternary | cast
  | typeExpr | tuple | optionalChain | forceUnwrap
  -- Patterns
  | enumCasePattern | patternArgument | valueBindingPattern | identifierPattern | wildcardPattern
  | tuplePattern | expressionPattern | isTypePattern | asPattern
  | unknown
deriving DecidableEq, Repr

namespace NodeKind

def names : List (String × NodeKind) :=
  [("SourceFile", .sourceFile), ("CodeBlock", .codeBlock), ("Modifier", .modifier),
   ("Comment", .comment), ("ImportDecl", .importDecl), ("ClassDecl", .classDecl),
   ("StructDecl", .structDecl), ("ProtocolDecl", .protocolDecl), ("EnumDecl", .enumDecl),
   ("EnumCaseDecl", .enumCaseDecl), ("EnumCaseElement", .enumCaseElement),
   ("ExtensionDecl", .extensionDecl), ("FunctionDecl", .functionDecl),
   ("InitializerDecl", .initializerDecl), ("Parameter", .parameter),
   ("GenericParameter", .genericParameter), ("InheritedType", .inheritedType),
   ("PatternBindingDecl", .patternBindingDecl), ("PatternBinding", .patternBinding),
   ("VarDecl", .varDecl), ("Accessor", .accessor), ("Type", .typeNode), ("IfStmt", .ifStmt),
   ("GuardStmt", .guardStmt), ("Condition", .condition), ("OptionalBinding", .optionalBinding),
   ("CaseCondition", .caseCondition), ("SwitchStmt", .switchStmt), ("SwitchCase", .switchCase),
   ("CaseItem", .caseItem), ("ForInStmt", .forInStmt), ("WhileStmt", .whileStmt),
   ("RepeatWhileStmt", .repeatWhileStmt), ("DoStmt", .doStmt), ("CatchClause", .catchClause),
   ("DeferStmt", .deferStmt), ("ThrowStmt", .throwStmt), ("ReturnStmt", .returnStmt),
   ("BreakStmt", .breakStmt), ("ContinueStmt", .continueStmt), ("IntegerLiteral", .integerLiteral),
   ("FloatLiteral", .floatLiteral), ("StringLiteral", .stringLiteral),
   ("BooleanLiteral", .booleanLiteral), ("NilLiteral", .nilLiteral),
   ("InterpolatedString", .interpolatedString), ("StringSegment", .stringSegment),
   ("ArrayLiteral", .arrayLiteral), ("DictionaryLiteral", .dictionaryLiteral),
   ("DictionaryElement", .dictionaryElement), ("DeclRef", .declRef),
   ("MemberAccess", .memberAccess), ("Call", .call), ("Argument", .argument),
   ("Closure", .closure), ("ClosureParameter", .closureParameter), ("Subscript", .subscript),
   ("PrefixOperator", .prefixOperator), ("PostfixOperator", .postfixOperator),
   ("Sequence", .sequence), ("BinaryOperator", .binaryOperator),
   ("TernaryOperator", .ternaryOperator), ("Ternary", .ternary), ("Cast", .cast),
   ("TypeExpr", .typeExpr), ("Tuple", .tuple), ("OptionalChain", .optionalChain),
   ("ForceUnwrap", .forceUnwrap), ("EnumCasePattern", .enumCasePattern),
   ("PatternArgument", .patternArgument), ("ValueBindingPattern", .valueBindingPattern),
   ("IdentifierPattern", .identifierPattern), ("WildcardPattern", .wildcardPattern),
   ("TuplePattern", .tuplePattern), ("ExpressionPattern", .expressionPattern),
   ("IsTypePattern", .isTypePattern), ("AsPattern", .asPattern), ("Unknown", .unknown)]

def ofName (name : String) : NodeKind :=
  (names.lookup name).getD .unknown

def name (kind : NodeKind) : String :=
  ((names.find? fun (_, other) => other == kind).map Prod.fst).getD "Unknown"

def isDeclaration : NodeKind → Bool
  | importDecl | classDecl | structDecl | protocolDecl | enumDecl | extensionDecl | functionDecl
  | initializerDecl | patternBindingDecl | varDecl => true
  | _ => false

def isExpression : NodeKind → Bool
  | integerLiteral | floatLiteral | stringLiteral | booleanLiteral | nilLiteral
  | interpolatedString | arrayLiteral | dictionaryLiteral | declRef | memberAccess | call | closure
  | subscript | prefixOperator | postfixOperator | sequence | binaryOperator | ternary | cast
  | typeExpr | tuple | optionalChain | forceUnwrap => true
  | _ => false

end NodeKind

/-- A node without its children. -/
structure NodeHead where
  kind : NodeKind
  offset : Nat := 0
  length : Nat := 0
  text : Option String := none
  role : Option String := none
deriving DecidableEq

inductive Node where
  | node (head : NodeHead) (children : List Node)

namespace NodeHead

/-- The text of a node, empty without one. -/
def textD (head : NodeHead) : String :=
  head.text.getD ""

def span (head : NodeHead) : Span :=
  Span.ofLength head.offset head.length

def summary (head : NodeHead) : String :=
  head.kind.name ++ (head.role.elim "" fun role => " [" ++ role ++ "]") ++
    (head.text.elim "" fun text => " " ++ Text.quoted text) ++
    " @" ++ toString head.offset ++ "+" ++ toString head.length

end NodeHead

namespace Node

def head : Node → NodeHead
  | node head _ => head

def children : Node → List Node
  | node _ children => children

mutual

/-- The tree line by line, two blanks a level. -/
def snapshotFrom (depth : Nat) : Node → String
  | .node head children =>
    String.ofList (List.replicate (2 * depth) ' ') ++ head.summary ++ "\n" ++
      snapshotAll (depth + 1) children

def snapshotAll (depth : Nat) : List Node → String
  | [] => ""
  | n :: rest => snapshotFrom depth n ++ snapshotAll depth rest

end

def snapshot (n : Node) : String :=
  snapshotFrom 0 n

/-! ## Looking at children -/

def kind (n : Node) : NodeKind :=
  n.head.kind

def text (n : Node) : String :=
  n.head.textD

def child? (n : Node) (role : String) : Option Node :=
  n.children.find? (·.head.role == some role)

def childrenOf (n : Node) (kind : NodeKind) : List Node :=
  n.children.filter (·.kind == kind)

/-- The texts of the children of a kind, without white space around them. -/
def textsOf (n : Node) (kind : NodeKind) : List String :=
  (n.childrenOf kind).map fun child => Text.trimmed child.text

def modifiers (n : Node) : List String :=
  (n.childrenOf .modifier).map text

def hasModifier (n : Node) (modifier : String) : Bool :=
  n.modifiers.contains modifier

def typeText? (n : Node) (role : String) : Option String := do
  let written := Text.trimmed (← n.child? role).text
  if written = "" then none else some written

def accessModifiers : List String :=
  ["open", "public", "internal", "fileprivate", "private"]

def access? (n : Node) : Option String :=
  n.modifiers.find? accessModifiers.contains

/-- Whether the declaration belongs to its type and not to a value of it. -/
def isStatic (n : Node) : Bool :=
  n.hasModifier "static" || n.hasModifier "class"

end Node

end Ferry.Source
