/-
  Ferry.Source.Pattern

  Patterns of `case`. A pattern is taken apart against the expression it is matched with: what
  remains is a test, and the names it binds, each to a projection of that expression such as
  `subject.radius` or `subject.first`.
-/
import Ferry.Source.Expression

namespace Ferry.Source

/-! ## Building matches -/

/-- An operator applied to two expressions, without type or place. -/
def plainBinary (lhs : Expr) (op : String) (rhs : Expr) : Expr :=
  .binary lhs op rhs {}

/-- A member of an expression, without type or place. -/
def plainMember (base : Expr) (name : String) : Expr :=
  .member base name false none {}

namespace PatternMatch

def require (found : PatternMatch) (test : Expr) : PatternMatch :=
  { found with
    condition := some (found.condition.elim test fun before => plainBinary before "&&" test) }

/-- The match that tests and binds what two matches do. -/
def absorb (found other : PatternMatch) : PatternMatch :=
  let tested := other.condition.elim found found.require
  { tested with bindings := tested.bindings ++ other.bindings }

def ofTest (test : Expr) : PatternMatch :=
  { condition := some test }

/-- The names bound, as local declarations. -/
def declarations (found : PatternMatch) : List Stmt :=
  found.bindings.map fun bound =>
    .declare (Variable.simple bound.name none (some bound.value) bound.isLet)

end PatternMatch

/-- Tests for a value: a `switch` case names it, elsewhere it is compared with the subject. -/
def valueTest (subject : Expr) (context : PatternContext) (value : Expr) : Expr :=
  match context with
  | .switchCase => value
  | .condition => plainBinary subject "==" value

def refusePattern {α : Type} (n : Node) (code : Code) (message : String) :
    ExceptT Diagnostic Adapter α := do
  throw (← Adapter.diagnostic n code message)

/-! ## Tuples -/

def tupleComponents : List String :=
  ["first", "second", "third"]

/-- Takes apart the elements of a tuple with the names of their components. -/
def destructureElements (subject : Expr) (isLet : Bool) (found : PatternMatch) :
    List (Site × String) → ExceptT Diagnostic Adapter PatternMatch
  | [] => return found
  | (element, component) :: rest => do
    let inner ← element.pattern (plainMember subject component) .condition isLet
    destructureElements subject isLet (found.absorb inner) rest

def destructureTuple (n : Node) (children : List Site) (subject : Expr) (isLet : Bool) :
    ExceptT Diagnostic Adapter PatternMatch :=
  if tupleComponents.length < children.length then
    refusePattern n .unsupportedPattern s!"tuple pattern with {children.length} elements"
  else destructureElements subject isLet {} (children.zip tupleComponents)

/-! ## Enumeration cases -/

/-- The label of a value in a declaration, as in `radius: Double`. -/
def payloadLabel (cs : List Char) : Option String :=
  match Text.splitTopLevel ':' cs with
  | [label, _] => writtenLabel (String.ofList (Text.trim label))
  | _ => none

/-- The labels of the values in the declaration of a case, as in `case circle(radius: Double)`. -/
def payloadLabels (declaration : String) : List (Option String) :=
  match declaration.toList.dropWhile (· != '(') with
  | [] => []
  | _ :: rest =>
    let inner := Text.dropEndWhile (· == ')') (Text.trimEnd rest)
    (Text.splitTopLevel ',' inner).map payloadLabel

/-- The enumeration a case pattern names: written, resolved for the pattern, or of the subject. -/
def caseOwner (n : Node) (subject : Expr) : Adapter (Option String) := do
  let resolved ← Adapter.typeOf n.head
  let owner := unwrappedType ((n.typeText? "type" <|> resolved <|> subject.ty).getD "")
  return if owner = "" then none else some owner

/-- Takes apart the values of a case, counted from `index`, each through its own label or the one
declared for it. -/
def destructurePayload (caseName : String) (subject : Expr) (isLet : Bool)
    (declared : List (Option String)) (found : PatternMatch) :
    (index : Nat) → List Site → ExceptT Diagnostic Adapter PatternMatch
  | _, [] => return found
  | index, argument :: rest =>
    match argument.children.head? with
    | none => destructurePayload caseName subject isLet declared found (index + 1) rest
    | some inner =>
      match argumentLabel argument.node <|> (declared[index]?).join with
      | some label => do
        let bound ← inner.pattern (plainMember subject label) .condition isLet
        destructurePayload caseName subject isLet declared (found.absorb bound) (index + 1) rest
      | none =>
        if inner.kind = .wildcardPattern then
          destructurePayload caseName subject isLet declared found (index + 1) rest
        else
          refusePattern argument.node .unlabeledPayload
            s!"associated value {index} of `.{caseName}` has no label to bind through"

def destructureCase (n : Node) (children : List Site) (subject : Expr) (context : PatternContext)
    (isLet : Bool) : ExceptT Diagnostic Adapter PatternMatch := do
  match ← caseOwner n subject with
  | none =>
    refusePattern n .unresolvedMember s!"cannot resolve the enum of case `.{n.text}`"
  | some owner =>
    let named := plainMember (.typeName owner {}) n.text
    match ofKind children .patternArgument with
    | [] => return .ofTest (valueTest subject context named)
    | arguments =>
      let entry := (← read).symbols.get? n.head.offset
      let declared := ((entry.bind SymbolEntry.declaration).map payloadLabels).getD []
      destructurePayload n.text subject isLet declared
        (.ofTest (plainBinary subject "is" named)) 0 arguments

/-! ## All patterns -/

def destructureAs (n : Node) (children : List Site) (subject : Expr) (isLet : Bool) :
    ExceptT Diagnostic Adapter PatternMatch :=
  match inRole? children "pattern", n.typeText? "type" with
  | some inner, some ty => do
    let checked := PatternMatch.ofTest (plainBinary subject "is" (.typeName ty {}))
    let cast := plainBinary subject "as" (.typeName ty {})
    return checked.absorb (← inner.pattern cast .condition isLet)
  | _, _ => refusePattern n .unsupportedPattern "`as` pattern without a type"

def readPattern (n : Node) (children : List Site) (subject : Expr) (context : PatternContext)
    (isLet : Bool) : ExceptT Diagnostic Adapter PatternMatch :=
  match n.kind with
  | .wildcardPattern => return {}
  | .identifierPattern => return { bindings := [⟨n.text, subject, isLet⟩] }
  | .valueBindingPattern =>
    match children.head? with
    | some inner => inner.pattern subject context (n.text != "var")
    | none => refusePattern n .unsupportedPattern "binding without a pattern"
  | .expressionPattern =>
    match children.head? with
    | some inner => return .ofTest (valueTest subject context (← inner.expr))
    | none => refusePattern n .unsupportedPattern "empty expression pattern"
  | .enumCasePattern => destructureCase n children subject context isLet
  | .tuplePattern => destructureTuple n children subject isLet
  | .isTypePattern =>
    let ty := (n.typeText? "type").getD n.text
    return .ofTest (plainBinary subject "is" (.typeName ty {}))
  | .asPattern => destructureAs n children subject isLet
  | kind => refusePattern n .unsupportedPattern s!"unsupported pattern `{kind.name}`"

/-! ## Loop variables -/

def loopName (n : Node) (name : String) : Adapter Expr := do
  return .name name false false { span := some (← Adapter.place n.head) }

/-- Reads a node as the variable of a loop: a name, or a tuple of them. -/
def readLoopVariable (n : Node) (children : List Site) : OptionT Adapter Expr :=
  match n.kind with
  | .identifierPattern => loopName n n.text
  | .wildcardPattern => loopName n "_"
  | .valueBindingPattern =>
    match children.head? with
    | some inner => inner.loopVariable
    | none => failure
  | .tuplePattern => do
    let elements ← children.mapM fun element => do
      return ({ label := none, value := ← element.loopVariable } : Argument)
    return .tuple elements { span := some (← Adapter.place n.head) }
  | _ => failure

end Ferry.Source
