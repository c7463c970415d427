/-
  Ferry.Proofs.Source.Forecast

  What a node will be read as, as far as it is known beforehand.  The reading of an expression has
  an outline: its error nodes, its type and place, and what decides how it is used in a test.
  Outlines are put together from the nodes and the side tables alone; nothing that others record
  while a file is read has any part in them.

  A forecast has the outlines of all that a node may be read as.  It is made like the site of a
  node, from the forecasts of its children.
-/
import Ferry.Proofs.Source.Site
import Mathlib.Algebra.BigOperators.Group.List.Basic
import Mathlib.Algebra.Group.Pi.Basic
import Mathlib.Algebra.GroupWithZero.Nat

namespace Ferry.Source

/-- A number of error nodes, given how many stand for each name. -/
abbrev Count := (String → Nat) → Nat

/-- What is known of an expression. -/
@[ext] structure Outline where
  errors : Count := 0
  ty : Option String := none
  span : Option Span := none
  /-- Whether it is an operator with the result of a test, parentheses aside. -/
  isTest : Bool := false
  isError : Bool := false
  /-- The name, if it is nothing but that. -/
  name : Option String := none

namespace Outline

def ofInfo (info : Info) (errors : Count) : Outline :=
  { errors, ty := info.ty, span := info.span }

def refused (n : Node) : Outline :=
  { errors := 1, span := some n.head.span, isError := true }

/-- A member of an expression. -/
def part (whole : Outline) : Outline :=
  { errors := whole.errors }

def binary (lhs : Outline) (op : String) (rhs : Outline) (info : Info := {}) : Outline :=
  { ofInfo info (lhs.errors + rhs.errors) with isTest := isTestOperator op }

/-- The type and place of what joins two sides. -/
def joined (types : TypeTable) (lhs rhs : Outline) : Info :=
  match lhs.span, rhs.span with
  | some left, some right =>
    let span := left.cover right
    { ty := types.get? span.start span.length, span := some span }
  | _, _ => {}

end Outline

def OperatorTree.outline (types : TypeTable) : OperatorTree Outline → Outline
  | leaf operand => operand
  | binary lhs op _ rhs =>
    let left := lhs.outline types
    let right := rhs.outline types
    left.binary op right (left.joined types right)
  | ternary condition middle otherwise =>
    let left := condition.outline types
    let right := otherwise.outline types
    .ofInfo (left.joined types right) (left.errors + middle.errors + right.errors)
  | cast operand op _ =>
    let value := operand.outline types
    value.binary op {} { span := value.span }

/-! ## Patterns -/

/-- What is known of a name that a pattern binds: how it gets from the subject to its value, and
what is known of the value. -/
structure BoundOutline where
  name : String
  path : String
  isLet : Bool
  errors : Count
  isError : Bool

def BoundOutline.shape (bound : BoundOutline) : String × String × Bool :=
  (bound.name, bound.path, bound.isLet)

structure PatternOutline where
  condition : Option Outline := none
  bound : List BoundOutline := []

namespace PatternOutline

def boundErrors (found : PatternOutline) : Count :=
  (found.bound.map BoundOutline.errors).sum

def errors (found : PatternOutline) : Count :=
  found.condition.elim 0 Outline.errors + found.boundErrors

def ofTest (test : Outline) : PatternOutline :=
  { condition := some test }

def require (found : PatternOutline) (test : Outline) : PatternOutline :=
  { found with condition := some (found.condition.elim test fun before => before.binary "&&" test) }

/-- Both matches, the second of them for what a path leads to. -/
def absorb (found : PatternOutline) (path : String) (other : PatternOutline) : PatternOutline :=
  let tested := other.condition.elim found found.require
  { tested with
    bound := tested.bound ++ other.bound.map fun bound =>
      { bound with path := path ++ bound.path } }

end PatternOutline

/-- What is known of an expression after names in it were replaced. -/
def Outline.substituted (bound : List BoundOutline) (clause : Outline) : Outline :=
  let find (name : String) := bound.reverse.find? (·.name == name)
  { errors := fun load => clause.errors fun name =>
      ((find name).map fun bound => bound.errors load).getD (load name)
    isError := ((clause.name.bind find).map BoundOutline.isError).getD clause.isError }

/-! ## Nodes -/

/-- A binding that waits for its declaration. -/
structure Waiting where
  name : String
  errors : Count

/-- What is known of all that a node may be read as. -/
structure Forecast where
  node : Node
  children : List Forecast
  expr : Outline
  operators : List (SequenceItem Outline)
  /-- As a pattern, unless that is refused. -/
  pattern : (subject : Outline) → PatternContext → (isLet : Bool) → Option PatternOutline
  loopVariable : Option Count
  conditional : Count
  /-- As an item of a block, with the bindings that wait before it and after it. -/
  item : List Waiting → Count × List Waiting

namespace Forecast

def firstIn (children : List Forecast) (role : String) : Option Forecast :=
  children.find? (·.node.head.role == some role)

def those (children : List Forecast) (kind : NodeKind) : List Forecast :=
  children.filter (·.node.kind == kind)

def sumOf (errors : Forecast → Count) (forecasts : List Forecast) : Count :=
  (forecasts.map errors).sum

def exprErrors (forecast : Forecast) : Count :=
  forecast.expr.errors

def valueIn (children : List Forecast) (role : String) : Count :=
  (firstIn children role).elim 0 exprErrors

def items : List Forecast → List Waiting → Count × List Waiting
  | [], waiting => (0, waiting)
  | first :: rest, waiting =>
    let (found, waiting) := first.item waiting
    let (others, waiting) := items rest waiting
    (found + others, waiting)

/-- The nodes of a block; what is left waiting at its end are errors. -/
def blockOf (forecasts : List Forecast) : Count :=
  let (found, left) := items forecasts []
  found + fun _ => left.length

def block (forecast : Forecast) : Count :=
  blockOf (if forecast.node.kind = .codeBlock then forecast.children else [forecast])

def blockIn (children : List Forecast) (role : String) : Count :=
  (firstIn children role).elim 0 block

def bodyErrors (forecast : Forecast) : Count :=
  blockIn forecast.children "body"

/-! ### Expressions -/

def segmentErrors (piece : Forecast) : Count :=
  if piece.node.kind = .stringSegment then 0 else piece.exprErrors

def entryErrors (entry : Forecast) : Count :=
  match firstIn entry.children "key", firstIn entry.children "value" with
  | some key, some value => key.exprErrors + value.exprErrors
  | _, _ => 1

def argument (argument : Forecast) : Outline :=
  argument.children.head?.elim (.refused argument.node) expr

def arguments (children : List Forecast) : List (Option String × Outline) :=
  (those children .argument).map fun argument => (argumentLabel argument.node, argument.argument)

def argumentErrors (arguments : List (Option String × Outline)) : Count :=
  (arguments.map fun argument => argument.2.errors).sum

/-- Whether the arguments of a call go with the declaration of its callee. -/
def isArranged (declaration : Option String) (labels : List (Option String)) (hasTrailing : Bool) :
    Bool :=
  match declaration.bind parameterClause? with
  | some parameters => (bindArguments parameters labels hasTrailing).isSome
  | none => true

def call (tables : SideTables) (n : Node) (children : List Forecast) (info : Info) : Outline :=
  match firstIn children "function" with
  | none => .refused n
  | some callee =>
    let regular := arguments children
    let trailing := firstIn children "trailing_closure"
    if isArranged (calleeDeclaration? tables.symbols callee.node.head) (regular.map Prod.fst)
        trailing.isSome then
      .ofInfo info (callee.exprErrors + argumentErrors regular + trailing.elim 0 exprErrors)
    else .refused n

def subscript (n : Node) (children : List Forecast) (info : Info) : Outline :=
  match firstIn children "base", arguments children with
  | some base, first :: rest => .ofInfo info (base.exprErrors + argumentErrors (first :: rest))
  | _, _ => .refused n

def tuple (children : List Forecast) (info : Info) : Outline :=
  match arguments children with
  | [(none, inner)] => { Outline.ofInfo info inner.errors with isTest := inner.isTest }
  | elements => .ofInfo info (argumentErrors elements)

def unary (n : Node) (children : List Forecast) (info : Info) : Outline :=
  (firstIn children "operand").elim (.refused n) fun operand => .ofInfo info operand.exprErrors

def plainExpr (tables : SideTables) (n : Node) (children : List Forecast) (info : Info) : Outline :=
  match n.kind with
  | .integerLiteral => if (integerValue? n.text).isSome then .ofInfo info 0 else .refused n
  | .floatLiteral => if (floatValue? n.text).isSome then .ofInfo info 0 else .refused n
  | .stringLiteral | .booleanLiteral | .nilLiteral | .typeExpr => .ofInfo info 0
  | .interpolatedString => .ofInfo info (sumOf segmentErrors children)
  | .arrayLiteral => .ofInfo info (sumOf exprErrors children)
  | .dictionaryLiteral => .ofInfo info (sumOf entryErrors (those children .dictionaryElement))
  | .declRef => { Outline.ofInfo info fun load => load n.text with name := some n.text }
  | .memberAccess =>
    match firstIn children "base" with
    | some base => .ofInfo info base.exprErrors
    | none => if unwrappedType (info.ty.getD "") = "" then .refused n else .ofInfo info 0
  | .call => call tables n children info
  | .closure => .ofInfo info (blockIn children "body")
  | .subscript => subscript n children info
  | .prefixOperator | .postfixOperator | .optionalChain | .forceUnwrap => unary n children info
  | .sequence =>
    match fold (children.flatMap operators) with
    | .ok tree => tree.outline tables.types
    | .error _ => .refused n
  | .binaryOperator =>
    match firstIn children "lhs", firstIn children "rhs" with
    | some lhs, some rhs => lhs.expr.binary n.text rhs.expr info
    | _, _ => .refused n
  | .ternary =>
    match firstIn children "condition", firstIn children "then", firstIn children "else" with
    | some condition, some yes, some no =>
      .ofInfo info (condition.exprErrors + yes.exprErrors + no.exprErrors)
    | _, _, _ => .refused n
  | .cast =>
    match firstIn children "operand", n.typeText? "type" with
    | some operand, some _ => operand.expr.binary n.text {} info
    | _, _ => .refused n
  | .tuple => tuple children info
  | _ => .refused n

def infoOf (tables : SideTables) (head : NodeHead) : Info :=
  { ty := tables.types.get? head.offset head.length, span := some head.span }

def exprOf (tables : SideTables) (n : Node) (children : List Forecast) : Outline :=
  if (tables.directives.payload? n.head.offset .literal).isSome then
    .ofInfo (infoOf tables n.head) 0
  else plainExpr tables n children (infoOf tables n.head)

/-! ### Operator sequences -/

def middle (n : Node) (found : Option Forecast) : Outline :=
  found.elim (.refused n) expr

def flattened : Option Forecast → List (SequenceItem Outline)
  | none => []
  | some side =>
    if side.node.kind = .sequence then side.children.flatMap operators else side.operators

def operatorsOf (n : Node) (children : List Forecast) (expr : Outline) :
    List (SequenceItem Outline) :=
  match n.kind with
  | .binaryOperator =>
    if children.isEmpty then
      [.operation (.binary n.text ((OperatorGroup.ofText? n.text).getD .standard))]
    else [.operand (.leaf expr)]
  | .ternaryOperator =>
    [.operation (.ternary (middle n (firstIn children "then" <|> children.head?)))]
  | .cast =>
    if (firstIn children "operand").isNone then [.operation (.cast n.text (n.typeText? "type"))]
    else [.operand (.leaf expr)]
  | .ternary =>
    flattened (firstIn children "condition") ++
      .operation (.ternary (middle n (firstIn children "then"))) ::
        flattened (firstIn children "else")
  | _ => [.operand (.leaf expr)]

/-! ### Patterns -/

def valueTest (subject : Outline) (context : PatternContext) (value : Outline) : Outline :=
  match context with
  | .switchCase => value
  | .condition => subject.binary "==" value

def elements (subject : Outline) (isLet : Bool) (found : PatternOutline) :
    List (Forecast × String) → Option PatternOutline
  | [] => some found
  | (element, component) :: rest => do
    let inner ← element.pattern subject.part .condition isLet
    elements subject isLet (found.absorb ("." ++ component) inner) rest

def payload (subject : Outline) (isLet : Bool) (declared : List (Option String))
    (found : PatternOutline) : (index : Nat) → List Forecast → Option PatternOutline
  | _, [] => some found
  | index, argument :: rest =>
    match argument.children.head? with
    | none => payload subject isLet declared found (index + 1) rest
    | some inner =>
      match argumentLabel argument.node <|> (declared[index]?).join with
      | some label => do
        let bound ← inner.pattern subject.part .condition isLet
        payload subject isLet declared (found.absorb ("." ++ label) bound) (index + 1) rest
      | none =>
        if inner.node.kind = .wildcardPattern then
          payload subject isLet declared found (index + 1) rest
        else none

def declaredLabels (tables : SideTables) (n : Node) : List (Option String) :=
  (((tables.symbols.get? n.head.offset).bind SymbolEntry.declaration).map payloadLabels).getD []

/-- Whether the enumeration of a case is known. -/
def hasOwner (tables : SideTables) (n : Node) (subject : Outline) : Bool :=
  let resolved := tables.types.get? n.head.offset n.head.length
  unwrappedType ((n.typeText? "type" <|> resolved <|> subject.ty).getD "") != ""

def enumCase (tables : SideTables) (n : Node) (children : List Forecast) (subject : Outline)
    (context : PatternContext) (isLet : Bool) : Option PatternOutline :=
  if hasOwner tables n subject then
    match those children .patternArgument with
    | [] => some (.ofTest (valueTest subject context {}))
    | first :: rest =>
      payload subject isLet (declaredLabels tables n) (.ofTest (subject.binary "is" {})) 0
        (first :: rest)
  else none

def patternOf (tables : SideTables) (n : Node) (children : List Forecast) (subject : Outline)
    (context : PatternContext) (isLet : Bool) : Option PatternOutline :=
  match n.kind with
  | .wildcardPattern => some {}
  | .identifierPattern => some { bound := [⟨n.text, "", isLet, subject.errors, subject.isError⟩] }
  | .valueBindingPattern => do
    let inner ← children.head?
    inner.pattern subject context (n.text != "var")
  | .expressionPattern =>
    children.head?.map fun inner => .ofTest (valueTest subject context inner.expr)
  | .enumCasePattern => enumCase tables n children subject context isLet
  | .tuplePattern =>
    if tupleComponents.length < children.length then none
    else elements subject isLet {} (children.zip tupleComponents)
  | .isTypePattern => some (.ofTest (subject.binary "is" {}))
  | .asPattern =>
    match firstIn children "pattern", n.typeText? "type" with
    | some inner, some ty => do
      let bound ← inner.pattern (subject.binary "as" {}) .condition isLet
      some ((PatternOutline.ofTest (subject.binary "is" {})).absorb (" as " ++ ty) bound)
    | _, _ => none
  | _ => none

def loopVariableOf (n : Node) (children : List Forecast) : Option Count :=
  match n.kind with
  | .identifierPattern => some fun load => load n.text
  | .wildcardPattern => some fun load => load "_"
  | .valueBindingPattern => children.head?.bind loopVariable
  | .tuplePattern => (children.mapM loopVariable).map List.sum
  | _ => none

/-! ### Statements -/

def test (forecast : Forecast) : Count :=
  match forecast.node.kind with
  | .condition => forecast.children.head?.elim 1 exprErrors
  | _ => forecast.exprErrors

def caseCondition (forecast : Forecast) : Count :=
  match firstIn forecast.children "pattern", firstIn forecast.children "initializer" with
  | some pattern, some value =>
    (pattern.pattern value.expr .condition true).elim 1 PatternOutline.errors
  | _, _ => 1

def condition (forecast : Forecast) : Count :=
  match forecast.node.kind with
  | .optionalBinding =>
    (firstIn forecast.children "initializer").elim (fun load => load forecast.node.text) exprErrors
  | .caseCondition => caseCondition forecast
  | _ => forecast.test

def conditions (children : List Forecast) : Count :=
  sumOf condition (children.filter (·.node.head.role == some "condition"))

def otherwise (forecast : Forecast) : Count :=
  if forecast.node.kind = .ifStmt then forecast.conditional else forecast.block

def conditionalOf (children : List Forecast) : Count :=
  conditions children + blockIn children "then" + (firstIn children "else").elim 0 otherwise

/-- What is known of an item of a `switch` case. -/
inductive Item where
  | blank
  | refused
  | matched (test : Option Outline) (found : PatternOutline)

namespace Item

def isOpen : Item → Bool
  | blank => true
  | refused => false
  | matched test _ => test.isNone

def pattern? : Item → Option Outline
  | blank => none
  | refused => some { errors := 1, isError := true }
  | matched test _ => test

def match? : Item → Option PatternOutline
  | matched _ found => some found
  | _ => none

end Item

def asTest (subject value : Outline) : Outline :=
  if value.isTest then value else subject.binary "==" value

def itemTest (subject : Outline) : (value clause : Option Outline) → Option Outline
  | some value, some clause => some ((asTest subject value).binary "&&" clause)
  | none, some clause => some clause
  | value, none => value

def caseItem (subject : Outline) (item : Forecast) : Item :=
  match firstIn item.children "pattern" with
  | none => .blank
  | some pattern =>
    match pattern.pattern subject .switchCase true with
    | none => .refused
    | some found =>
      let clause := (firstIn item.children "where").map expr
      .matched (itemTest subject found.condition (clause.map (.substituted found.bound))) found

/-- Whether all matches bind the same names in the same way. -/
def bindAlike : List PatternOutline → Bool
  | [] => true
  | first :: others => others.all fun other =>
    (other.bound.map BoundOutline.shape).isPerm (first.bound.map BoundOutline.shape)

def casePatterns (isDefault : Bool) (items : List Item) : List Outline :=
  let patterns := items.filterMap Item.pattern?
  if isDefault || items.isEmpty || items.any Item.isOpen then patterns.filter Outline.isError
  else patterns

def switchCase (subject : Outline) (forecast : Forecast) : Count :=
  let items := (those forecast.children .caseItem).map (caseItem subject)
  let found := items.filterMap Item.match?
  ((casePatterns (forecast.node.text == "default") items).map Outline.errors).sum +
    if bindAlike found then
      found.head?.elim 0 PatternOutline.boundErrors + blockIn forecast.children "body"
    else 1

def switch (children : List Forecast) : Count :=
  (firstIn children "subject").elim 1 fun subject =>
    subject.exprErrors + sumOf (switchCase subject.expr) (those children .switchCase)

def forIn (children : List Forecast) : Count :=
  match firstIn children "pattern", firstIn children "collection" with
  | some pattern, some collection =>
    pattern.loopVariable.elim 1 fun item =>
      item + collection.exprErrors + (valueIn children "where" + blockIn children "body")
  | _, _ => 1

def whileLoop (children : List Forecast) : Count :=
  (firstIn children "condition").elim 1 fun condition =>
    if condition.node.kind = .optionalBinding then 1
    else condition.test + blockIn children "body"

def statement (n : Node) (children : List Forecast) (expr : Outline) (conditional : Count) :
    Count :=
  match n.kind with
  | .codeBlock => blockOf children
  | .ifStmt => conditional
  | .guardStmt => conditions children + blockIn children "body"
  | .switchStmt => switch children
  | .forInStmt => forIn children
  | .whileStmt => whileLoop children
  | .doStmt =>
    blockIn children "body" +
      sumOf bodyErrors (those children .catchClause)
  | .deferStmt => blockIn children "body"
  | .throwStmt => (firstIn children "value").elim 1 exprErrors
  | .returnStmt => valueIn children "value"
  | .comment | .breakStmt | .continueStmt => 0
  | kind => if kind.isExpression then expr.errors else 1

/-! ### Declarations -/

def defaultErrors (parameter : Forecast) : Count :=
  valueIn parameter.children "default"

def function (children : List Forecast) : Count :=
  let parameters := those children .parameter
  if parameters.all fun parameter => (ParameterInfo.ofText? parameter.node.text).isSome then
    sumOf defaultErrors parameters + blockIn children "body"
  else 1

def rawValueErrors (element : Forecast) : Count :=
  valueIn element.children "raw_value"

def caseElements (children : List Forecast) : Count :=
  sumOf rawValueErrors
    ((those children .enumCaseDecl).flatMap fun group => those group.children .enumCaseElement)

def members (children : List Forecast) : Count :=
  blockOf (children.filter fun child =>
    match child.node.kind with
    | .modifier | .genericParameter | .inheritedType | .enumCaseDecl => false
    | _ => true)

def accessor (children : List Forecast) (role keyword : String) : Count :=
  match firstIn children role with
  | some block => block.block
  | none =>
    ((those children .accessor).find? (·.node.text == keyword)).elim 0 bodyErrors

def variableErrors (children : List Forecast) : Count :=
  valueIn children "initializer" + accessor children "getter" "get" +
    accessor children "setter" "set"

def declaration (n : Node) (children : List Forecast) (waiting : List Waiting) :
    Count × List Waiting :=
  match n.kind with
  | .importDecl => (0, waiting)
  | .classDecl | .structDecl | .protocolDecl | .extensionDecl => (members children, waiting)
  | .enumDecl => (caseElements children + members children, waiting)
  | .functionDecl | .initializerDecl => (function children, waiting)
  | .patternBindingDecl =>
    (0, waiting ++ (those children .patternBinding).map fun binding =>
      ⟨binding.node.text, variableErrors binding.children⟩)
  | .varDecl =>
    if waiting.isEmpty then (variableErrors children, waiting)
    else
      ((waiting.find? (·.name = n.text)).elim 1 Waiting.errors,
        waiting.eraseP (·.name = n.text))
  | _ => (1, waiting)

def itemOf (tables : SideTables) (n : Node) (children : List Forecast) (expr : Outline)
    (conditional : Count) (waiting : List Waiting) : Count × List Waiting :=
  if tables.directives.has n.head.offset .ignore then (0, waiting)
  else if (tables.directives.payload? n.head.offset .literal).isSome then (0, waiting)
  else if n.kind.isDeclaration then declaration n children waiting
  else (statement n children expr conditional, waiting)

def ofParts (tables : SideTables) (n : Node) (children : List Forecast) : Forecast :=
  let expr := exprOf tables n children
  let conditional := conditionalOf children
  { node := n
    children
    expr
    operators := operatorsOf n children expr
    pattern := patternOf tables n children
    loopVariable := loopVariableOf n children
    conditional
    item := itemOf tables n children expr conditional }

end Forecast

namespace Node

mutual

def forecast (tables : SideTables) : Node → Forecast
  | .node head children => .ofParts tables (.node head children) (forecasts tables children)

def forecasts (tables : SideTables) : List Node → List Forecast
  | [] => []
  | n :: rest => forecast tables n :: forecasts tables rest

end

/-- Error nodes of the file that a node is read as. -/
def errors (tables : SideTables) (root : Node) : Nat :=
  Forecast.blockOf (root.fileNodes.map (forecast tables)) 0

end Node

end Ferry.Source
