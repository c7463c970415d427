/-
  Ferry.Source.Statement

  Nodes as statements. Conditions of an `if` may bind names: those of `case` patterns are declared
  at the start of its body, those of a `guard` after it. Items of one `switch` case share its body,
  so they have to bind the same names to the same values.
-/
import Ferry.Program.Text
import Ferry.Source.Pattern
import Ferry.Traverse.Transform

namespace Ferry.Source

/-! ## Conditions -/

def readTest (site : Site) : Adapter Expr :=
  match site.kind with
  | .condition =>
    match site.children.head? with
    | some inner => inner.expr
    | none => Adapter.errorExpr site.node .unrecognizedSyntax "empty condition"
  | _ => site.expr

/-- Reads `let name = value`; without a value the name itself is meant. -/
def readOptionalBinding (site : Site) : Adapter Condition := do
  let span ← Adapter.place site.head
  let initializer ← match site.child? "initializer" with
    | some value => value.expr
    | none => pure (.name site.text false false { span := some span })
  let item := Variable.simple site.text (site.node.typeText? "type") (some initializer)
    (!site.node.hasModifier "var")
  return .binding { item with span := some span }

/-- Reads `case pattern = value` into the tests it makes and the names it binds. -/
def readCaseCondition (site : Site) : Adapter (List Condition × List Stmt) :=
  match site.child? "pattern", site.child? "initializer" with
  | some pattern, some value => do
    let subject ← value.expr
    match ← (pattern.pattern subject .condition true).run with
    | .ok found => return (found.condition.toList.map .test, found.declarations)
    | .error refused =>
      let span ← Adapter.place site.head
      return ([.test (.error refused (some span))], [])
  | _, _ => do
    let missing ← Adapter.errorExpr site.node .unsupportedPattern
      "`case` condition without a pattern"
    return ([.test missing], [])

/-- Reads one condition into the conditions it stands for and the names it binds. -/
def readCondition (site : Site) : Adapter (List Condition × List Stmt) :=
  match site.kind with
  | .optionalBinding => return ([← readOptionalBinding site], [])
  | .caseCondition => readCaseCondition site
  | _ => return ([.test (← readTest site)], [])

def readConditions (children : List Site) : Adapter (List Condition × List Stmt) := do
  let conditions ← (children.filter (·.head.role == some "condition")).mapM readCondition
  return ((conditions.map Prod.fst).flatten, (conditions.map Prod.snd).flatten)

def readElse (site : Site) : Adapter (List Stmt) :=
  match site.kind with
  | .ifStmt => return [← site.conditional]
  | _ => site.block

def readIf (n : Node) (children : List Site) : Adapter Stmt := do
  let (conditions, bound) ← readConditions children
  let body ← blockIn children "then"
  let otherwise ← (inRole? children "else").mapM readElse
  return .ifStmt conditions (bound ++ body) otherwise false (some (← Adapter.place n.head))

/-- Reads a `guard` and what its patterns bind after it. -/
def readGuard (n : Node) (children : List Site) : Adapter (List Stmt) := do
  let (conditions, bound) ← readConditions children
  let body ← blockIn children "body"
  return .ifStmt conditions body none true (some (← Adapter.place n.head)) :: bound

/-! ## Switches -/

/-- Puts what names are bound to in place of the names; of one name the last binding counts. -/
def projections (bindings : List PatternVariable) : Transform where
  expr _ e :=
    match e with
    | .name name _ _ _ =>
      ((bindings.reverse.find? (·.name == name)).map PatternVariable.value).getD e
    | _ => e

def substitute (bindings : List PatternVariable) (e : Expr) : Expr :=
  (projections bindings).onExpr none false e

/-- Operators whose result is a test already. -/
def isTestOperator (op : String) : Bool :=
  op == "is" || op == "==" || op == "&&" || op == "||"

/-- A case value as a test of the subject, unless it is a test already. -/
def asTest (subject value : Expr) : Expr :=
  match value.unparenthesized with
  | .binary _ op _ _ => if isTestOperator op then value else plainBinary subject "==" value
  | _ => plainBinary subject "==" value

/-- The test of a case item, from its pattern and its `where` clause; none if it always matches. -/
def itemTest (subject : Expr) : (value clause : Option Expr) → Option Expr
  | some value, some clause => some (plainBinary (asTest subject value) "&&" clause)
  | none, some clause => some clause
  | value, none => value

inductive CaseItem where
  /-- No pattern at all. -/
  | blank
  | refused (error : Expr)
  /-- A pattern with its test and what it binds. -/
  | matched (test : Option Expr) (found : PatternMatch)

namespace CaseItem

def isOpen : CaseItem → Bool
  | blank => true
  | refused _ => false
  | matched test _ => test.isNone

/-- What the item contributes to the patterns of its case. -/
def pattern? : CaseItem → Option Expr
  | blank => none
  | refused error => some error
  | matched test _ => test

def match? : CaseItem → Option PatternMatch
  | matched _ found => some found
  | _ => none

end CaseItem

def readCaseItem (subject : Expr) (site : Site) : Adapter CaseItem :=
  match site.child? "pattern" with
  | none => return .blank
  | some pattern => do
    match ← (pattern.pattern subject .switchCase true).run with
    | .error refused => return .refused (.error refused (some (← Adapter.place site.head)))
    | .ok found =>
      let clause ← (site.child? "where").mapM Site.expr
      let guarded := clause.map (substitute found.bindings)
      return .matched (itemTest subject found.condition guarded) found

/-- What a match binds: each name with the text of its value. -/
def bindingShape (found : PatternMatch) : List (String × String × Bool) :=
  found.bindings.map fun bound => (bound.name, bound.value.text, bound.isLet)

/-- Whether all matches bind the same names to the same values, in any order. -/
def bindAlike : List PatternMatch → Bool
  | [] => true
  | first :: others => others.all fun other => (bindingShape other).isPerm (bindingShape first)

/-- The patterns of a case. One with an item that matches everything has none, except that refused
items stay. -/
def casePatterns (isDefault : Bool) (items : List CaseItem) : List Expr :=
  let patterns := items.filterMap CaseItem.pattern?
  if isDefault || items.isEmpty || items.any CaseItem.isOpen then patterns.filter Expr.isError
  else patterns

def readSwitchCase (subject : Expr) (site : Site) : Adapter SwitchCase := do
  let items ← (ofKind site.children .caseItem).mapM (readCaseItem subject)
  let patterns := casePatterns (site.text == "default") items
  let found := items.filterMap CaseItem.match?
  let span ← Adapter.place site.head
  if bindAlike found then
    let body ← blockIn site.children "body"
    let bound := (found.head?.map PatternMatch.declarations).getD []
    return { patterns, body := bound ++ body, span := some span }
  else
    let clash ← Adapter.errorStmt site.node .unlabeledPayload
      "case items bind the same names to different values"
    return { patterns, body := [clash], span := some span }

def readSwitch (n : Node) (children : List Site) : Adapter Stmt :=
  match inRole? children "subject" with
  | none => Adapter.errorStmt n .unrecognizedSyntax "`switch` without a subject"
  | some subject => do
    let subject ← subject.expr
    let cases ← (ofKind children .switchCase).mapM (readSwitchCase subject)
    return .switchStmt subject cases none (some (← Adapter.place n.head))

/-! ## Loops and blocks -/

/-- Reads the `where` clause of a loop, which guards the whole body. -/
def guardedBody (body : List Stmt) : Option Site → Adapter (List Stmt)
  | none => return body
  | some clause => do
    let test ← clause.expr
    return [.ifStmt [.test test] body none false (some clause.head.span)]

def readForIn (n : Node) (children : List Site) : Adapter Stmt :=
  match inRole? children "pattern", inRole? children "collection" with
  | some pattern, some collection => do
    match ← pattern.loopVariable.run with
    | none => Adapter.errorStmt pattern.node .unsupportedPattern "unsupported loop pattern"
    | some item =>
      let collection ← collection.expr
      let body ← guardedBody (← blockIn children "body") (inRole? children "where")
      return .forEach item collection body (some (← Adapter.place n.head))
  | _, _ => Adapter.errorStmt n .unrecognizedSyntax "`for` without a pattern or a sequence"

def readWhile (n : Node) (children : List Site) : Adapter Stmt :=
  match inRole? children "condition" with
  | none => Adapter.errorStmt n .unrecognizedSyntax "`while` without a condition"
  | some condition =>
    if condition.kind = .optionalBinding then
      Adapter.errorStmt n .unsupportedPattern "`while let` loops are not supported"
    else do
      let test ← readTest condition
      let body ← blockIn children "body"
      return .whileLoop test body (some (← Adapter.place n.head))

def caughtName? (clause : Node) : Option String := do
  let pattern ← clause.child? "pattern"
  let named :=
    if pattern.kind = .valueBindingPattern then pattern.children.headD pattern else pattern
  if named.kind = .identifierPattern then some named.text else none

def readCatch (site : Site) : Adapter Stmt := do
  let item := (caughtName? site.node).map fun name =>
    Variable.simple name (site.node.typeText? "type") none true
  let body ← blockIn site.children "body"
  return .catchBlock item body (some (← Adapter.place site.head))

/-- Reads a `do` block, followed by its `catch` clauses. -/
def readDo (n : Node) (children : List Site) : Adapter (List Stmt) := do
  let body ← blockIn children "body"
  let span ← Adapter.place n.head
  let clauses ← (ofKind children .catchClause).mapM readCatch
  return .doBlock body [] (some span) :: clauses

/-! ## All statements -/

/-- An expression as a statement; `lhs = rhs` assigns. -/
def expressionStmt (span : Option Span) : Expr → Stmt
  | .binary lhs "=" rhs _ => .assign lhs rhs span
  | value => .expression value span

def readThrow (n : Node) (children : List Site) : Adapter Stmt :=
  match inRole? children "value" with
  | some value => return .throwStmt (← value.expr) (some n.head.span)
  | none => Adapter.errorStmt n .unrecognizedSyntax "`throw` without a value"

/-- Reads a node as statements by its kind; `expr` and `conditional` are what it is as an expression
and as an `if`. -/
def readStatement (n : Node) (children : List Site) (expr : Adapter Expr)
    (conditional : Adapter Stmt) : Adapter (List Stmt) := do
  let span := some (← Adapter.place n.head)
  match n.kind with
  | .comment => return [.comment n.text span]
  | .codeBlock => readBlock children
  | .ifStmt => return [← conditional]
  | .guardStmt => readGuard n children
  | .switchStmt => return [← readSwitch n children]
  | .forInStmt => return [← readForIn n children]
  | .whileStmt => return [← readWhile n children]
  | .repeatWhileStmt =>
    return [← Adapter.errorStmt n .unrecognizedSyntax
      "`repeat`-`while` loops are not supported"]
  | .doStmt => readDo n children
  | .deferStmt => return [.deferBlock (← blockIn children "body") span]
  | .throwStmt => return [← readThrow n children]
  | .returnStmt => return [.returnStmt (← (inRole? children "value").mapM Site.expr) span]
  | .breakStmt => return [.breakStmt span]
  | .continueStmt => return [.continueStmt span]
  | kind =>
    if kind.isExpression then return [expressionStmt span (← expr)]
    else
      return [← Adapter.errorStmt n .unrecognizedSyntax s!"unsupported statement `{kind.name}`"]

end Ferry.Source
