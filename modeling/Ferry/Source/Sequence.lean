/-
  Ferry.Source.Sequence

  Operator sequences. Their parts are gathered first: a ternary that comes as a node of its own is
  taken apart, so that it is read at its own precedence wherever it was put. Then the sequence is
  folded into a tree and the tree into an expression, whose place covers both of its sides.
-/
import Ferry.Source.Site

namespace Ferry.Source

/-! ## Parts -/

/-- The group of an operator between operands, with a warning if it is not built in. -/
def groupOf (n : Node) : Adapter OperatorGroup :=
  match OperatorGroup.ofText? n.text with
  | some group => return group
  | none => do
    Adapter.warn n .customOperator
      s!"custom operator `{n.text}` assumed left-associative with default precedence"
    return .standard

def middleOperand (n : Node) : Option Site → Adapter Expr
  | some middle => middle.expr
  | none => Adapter.errorExpr n .malformedOperators "ternary without a middle operand"

/-- The parts of several nodes one after the other. -/
def gatherOperators (sites : List Site) : Adapter (List (SequenceItem Expr)) := do
  return (← sites.mapM Site.operators).flatten

/-- The parts a side of a ternary contributes, a sequence all of its own. -/
def flattened : Option Site → Adapter (List (SequenceItem Expr))
  | none => return []
  | some side =>
    if side.kind = .sequence then gatherOperators side.children else side.operators

/-- The parts of a sequence that a node is read as; `expr` is what it is as an operand. -/
def readOperators (n : Node) (children : List Site) (expr : Adapter Expr) :
    Adapter (List (SequenceItem Expr)) := do
  match n.kind with
  | .binaryOperator =>
    if children.isEmpty then return [.operation (.binary n.text (← groupOf n))]
    else return [.operand (.leaf (← expr))]
  | .ternaryOperator =>
    return [.operation (.ternary (← middleOperand n (inRole? children "then" <|> children.head?)))]
  | .cast =>
    if (inRole? children "operand").isNone then
      return [.operation (.cast n.text (n.typeText? "type"))]
    else return [.operand (.leaf (← expr))]
  | .ternary => do
    let condition ← flattened (inRole? children "condition")
    let middle ← middleOperand n (inRole? children "then")
    let otherwise ← flattened (inRole? children "else")
    return condition ++ .operation (.ternary middle) :: otherwise
  | _ => return [.operand (.leaf (← expr))]

/-! ## Expressions -/

/-- The type and place of what joins two sides. -/
def joinedInfo (types : TypeTable) (lhs rhs : Expr) : Info :=
  match lhs.span, rhs.span with
  | some left, some right =>
    let span := left.cover right
    { ty := types.get? span.start span.length, span := some span }
  | _, _ => {}

def OperatorTree.toExpr (types : TypeTable) : OperatorTree Expr → Expr
  | leaf operand => operand
  | binary lhs op _ rhs =>
    let left := lhs.toExpr types
    let right := rhs.toExpr types
    .binary left op right (joinedInfo types left right)
  | ternary condition middle otherwise =>
    let left := condition.toExpr types
    let right := otherwise.toExpr types
    .ternary left middle right (joinedInfo types left right)
  | cast operand op ty =>
    let value := operand.toExpr types
    .binary value op (.typeName ty {}) { span := value.span }

def readSequence (n : Node) (children : List Site) : Adapter Expr := do
  match fold (← gatherOperators children) with
  | .ok tree => return tree.toExpr (← read).types
  | .error e => Adapter.errorExpr n .malformedOperators e.message

end Ferry.Source
