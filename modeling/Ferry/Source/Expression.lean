/-
  Ferry.Source.Expression

  Nodes as expressions. Code that the author supplied for a place stands in for the node there. An
  implicit member `.name` takes the type of its node as its base.
-/
import Ferry.Source.Call
import Ferry.Source.Literal
import Ferry.Source.Sequence

namespace Ferry.Source

/-- A type without the marks of an optional. -/
def unwrappedType (ty : String) : String :=
  String.ofList (Text.dropEndWhile (fun c => c == '?' || c == '!') ty.toList)

/-! ## Single kinds -/

def readInteger (n : Node) (info : Info) : Adapter Expr :=
  match integerValue? n.text with
  | some value => return .literal (integerLiteral info.ty value) info
  | none => Adapter.errorExpr n .unrecognizedSyntax s!"invalid integer literal `{n.text}`"

def readFloat (n : Node) (info : Info) : Adapter Expr :=
  match floatValue? n.text with
  | some value => return .literal (floatLiteral info.ty value) info
  | none => Adapter.errorExpr n .unrecognizedSyntax s!"invalid float literal `{n.text}`"

def readSegment (piece : Site) : Adapter Segment :=
  match piece.kind with
  | .stringSegment => return .text piece.text
  | _ => return .value (← piece.expr)

def readEntry (entry : Site) : Adapter (Expr × Expr) :=
  match entry.child? "key", entry.child? "value" with
  | some key, some value => return (← key.expr, ← value.expr)
  | _, _ => do
    let missing ← Adapter.errorExpr entry.node .unrecognizedSyntax
      "dictionary element without key or value"
    return (missing, .literal .nil {})

/-- Reads a reference to a name. A reference without any text in the source was made up. -/
def readName (n : Node) (info : Info) : Adapter Expr := do
  let isLibrary ← Adapter.isLibrary n.head.offset n.text
  return .name n.text isLibrary (n.head.length == 0) info

/-- The base of a member: the one written or the type of the whole. -/
def readBase (children : List Site) (ty : Option String) : Adapter (Option Expr) :=
  match inRole? children "base" with
  | some base => return some (← base.expr)
  | none =>
    let owner := unwrappedType (ty.getD "")
    return if owner = "" then none else some (.typeName owner {})

/-- Reads a member. Its name ends the node and has its own place among the symbols. -/
def readMember (n : Node) (children : List Site) (info : Info) : Adapter Expr := do
  match ← readBase children info.ty with
  | some base =>
    let isLibrary ← Adapter.isLibrary (calleeOffset n.head) n.text
    return .member base n.text isLibrary none info
  | none =>
    Adapter.errorExpr n .unresolvedMember
      s!"cannot resolve the type of implicit member `.{n.text}`"

def closureParameter (n : Node) : ClosureParameter where
  name := n.text
  ty := n.typeText? "type"

def readClosure (n : Node) (children : List Site) (info : Info) : Adapter Expr := do
  let body ← blockIn children "body"
  return .closure ((n.childrenOf .closureParameter).map closureParameter) body info

/-- Reads a subscript; several indices or a labeled one make a tuple. -/
def readSubscript (n : Node) (children : List Site) (info : Info) : Adapter Expr :=
  match inRole? children "base" with
  | none => Adapter.errorExpr n .unrecognizedSyntax "subscript without a base"
  | some base => do
    let base ← base.expr
    match ← readArguments children with
    | [] => Adapter.errorExpr n .unrecognizedSyntax "subscript without an index"
    | [⟨none, index⟩] => return .subscript base index info
    | indices => return .subscript base (.tuple indices {}) info

/-- Reads a tuple; one element without a label is an expression in parentheses. -/
def readTuple (children : List Site) (info : Info) : Adapter Expr := do
  match ← readArguments children with
  | [⟨none, inner⟩] => return .paren inner info
  | elements => return .tuple elements info

def readUnary (n : Node) (children : List Site) (build : Expr → Expr) : Adapter Expr :=
  match inRole? children "operand" with
  | some operand => return build (← operand.expr)
  | none =>
    Adapter.errorExpr n .malformedOperators s!"operator `{n.text}` without an operand"

def readUnwrap (n : Node) (children : List Site) (build : Expr → Expr) : Adapter Expr :=
  match inRole? children "operand" with
  | some operand => return build (← operand.expr)
  | none => Adapter.errorExpr n .unrecognizedSyntax "unwrap without an operand"

/-- Reads an operator that already has both of its sides. -/
def readBinary (n : Node) (children : List Site) (info : Info) : Adapter Expr :=
  match inRole? children "lhs", inRole? children "rhs" with
  | some lhs, some rhs => return .binary (← lhs.expr) n.text (← rhs.expr) info
  | _, _ => Adapter.errorExpr n .malformedOperators s!"operator `{n.text}` outside a sequence"

/-- Reads a ternary that already has all of its parts. -/
def readTernary (n : Node) (children : List Site) (info : Info) : Adapter Expr :=
  match inRole? children "condition", inRole? children "then", inRole? children "else" with
  | some condition, some yes, some no =>
    return .ternary (← condition.expr) (← yes.expr) (← no.expr) info
  | _, _, _ => Adapter.errorExpr n .malformedOperators "incomplete ternary"

def readCast (n : Node) (children : List Site) (info : Info) : Adapter Expr :=
  match inRole? children "operand", n.typeText? "type" with
  | some operand, some ty => return .binary (← operand.expr) n.text (.typeName ty {}) info
  | _, _ => Adapter.errorExpr n .malformedOperators s!"`{n.text}` without an operand or a type"

/-! ## All kinds -/

def readPlainExpr (n : Node) (children : List Site) (info : Info) : Adapter Expr :=
  match n.kind with
  | .integerLiteral => readInteger n info
  | .floatLiteral => readFloat n info
  | .stringLiteral => return .literal (stringLiteral info.ty n.text) info
  | .booleanLiteral => return .literal (.bool (n.text == "true")) info
  | .nilLiteral => return .literal .nil info
  | .interpolatedString => return .interpolation (← children.mapM readSegment) info
  | .arrayLiteral => return .array (← children.mapM Site.expr) info
  | .dictionaryLiteral => do
    let entries ← (ofKind children .dictionaryElement).mapM readEntry
    return .dictionary (entries.map Prod.fst) (entries.map Prod.snd) info
  | .declRef => readName n info
  | .memberAccess => readMember n children info
  | .call => readCall n children info
  | .closure => readClosure n children info
  | .subscript => readSubscript n children info
  | .prefixOperator => readUnary n children fun operand => .prefixOp n.text operand info
  | .postfixOperator => readUnary n children fun operand => .postfixOp n.text operand info
  | .sequence => readSequence n children
  | .binaryOperator => readBinary n children info
  | .ternary => readTernary n children info
  | .cast => readCast n children info
  | .typeExpr => return .typeName n.text info
  | .tuple => readTuple children info
  | .optionalChain => readUnwrap n children fun operand => .optional operand info
  | .forceUnwrap => readUnwrap n children fun operand => .force operand info
  | kind => Adapter.errorExpr n .unrecognizedSyntax s!"unsupported expression `{kind.name}`"

/-- Reads a node as an expression; code supplied for its place stands in for it. -/
def readExpr (n : Node) (children : List Site) : Adapter Expr := do
  let info ← Adapter.info n.head
  match (← read).directives.payload? n.head.offset .literal with
  | some code => return .code code info
  | none => readPlainExpr n children info

end Ferry.Source
