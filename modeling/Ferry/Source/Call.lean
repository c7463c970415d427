/-
  Ferry.Source.Call

  Arguments of calls. If the declaration of the callee is known, its parameters decide where the
  arguments go: they stay as written when each is the one at its own position, and are put into
  slots otherwise. Without a readable declaration they stay as written.
-/
import Ferry.Program.Shuffle
import Ferry.Source.Binding
import Ferry.Source.Site

namespace Ferry.Source

def argumentLabel (n : Node) : Option String :=
  n.head.text.bind writtenLabel

def argumentValue (argument : Site) : Adapter Expr :=
  match argument.children.head? with
  | some value => value.expr
  | none => Adapter.errorExpr argument.node .unrecognizedSyntax "argument without a value"

/-- The arguments among the children of a node, with their labels. -/
def readArguments (children : List Site) : Adapter (List Argument) :=
  (ofKind children .argument).mapM fun argument => do
    return { label := argumentLabel argument.node, value := ← argumentValue argument }

/-- Where the name of a callee starts; a member is named at the end of its node. -/
def calleeOffset (callee : NodeHead) : Nat :=
  match callee.kind with
  | .memberAccess => callee.offset + (callee.length - callee.textD.utf8ByteSize)
  | _ => callee.offset

def calleeDeclaration? (symbols : SymbolTable) (callee : NodeHead) : Option String :=
  (symbols.get? (calleeOffset callee)).bind SymbolEntry.declaration

/-- How a parameter is supplied with its arguments. -/
def shuffleIndex (parameter : ParameterInfo) (bound : List Nat) : ShuffleIndex :=
  if parameter.isVariadic then .variadic bound.length
  else if bound.isEmpty then .absent
  else .present

/-- Moves values out of their places, in the order of some indices. A place that was left is empty
when its index comes again. -/
def moveOut {α : Type} : List Nat → List (Option α) → List α
  | [], _ => []
  | index :: rest, places => places[index]?.join.toList ++ moveOut rest (places.set index none)

/-- The slots of the parameters, filled with the arguments bound to them. -/
def slotsOf (parameters : List ParameterInfo) (binding : Binding) (values : List Expr) :
    Except ShuffleError (List Slot) :=
  Shuffle.ofParts (parameters.map ParameterInfo.label)
    (List.zipWith shuffleIndex parameters binding)
    (moveOut binding.flatten (values.map some))

inductive ArgumentError where
  | mismatch (labels : List (Option String)) (declaration : String)
  | shuffle (cause : ShuffleError)

namespace ArgumentError

def code : ArgumentError → Code
  | mismatch _ _ => .argumentMismatch
  | shuffle _ => .shuffleMismatch

def message : ArgumentError → String
  | mismatch labels declaration =>
    "arguments " ++ signatureKey "" labels ++ " do not match `" ++ Text.trimmed declaration ++ "`"
  | shuffle cause => cause.message

end ArgumentError

/-- The arguments of a call as they are written, a trailing closure last. -/
def supplied (regular : List Argument) (trailing : Option Expr) : List Argument :=
  regular ++ trailing.toList.map fun closure => ⟨none, closure⟩

/-- The argument list of a call whose callee is declared with these parameters. -/
def arrangeFor (parameters : List ParameterInfo) (declaration : String) (regular : List Argument)
    (trailing : Option Expr) (span : Span) : Except ArgumentError Expr :=
  let labels := regular.map Argument.label
  let arguments := supplied regular trailing
  match bindArguments parameters labels trailing.isSome with
  | none => .error (.mismatch labels declaration)
  | some binding =>
    if isIdentity parameters binding arguments.length then .ok (.tuple arguments {})
    else
      match slotsOf parameters binding (arguments.map Argument.value) with
      | .ok slots => .ok (.shuffle slots { span := some span })
      | .error cause => .error (.shuffle cause)

/-- The argument list of a call from the arguments in parentheses, the trailing closure and the
declaration of the callee, if it is known. -/
def arrange (declaration : Option String) (regular : List Argument) (trailing : Option Expr)
    (span : Span) : Except ArgumentError Expr :=
  match declaration with
  | none => .ok (.tuple (supplied regular trailing) {})
  | some declaration =>
    match parameterClause? declaration with
    | none => .ok (.tuple (supplied regular trailing) {})
    | some parameters => arrangeFor parameters declaration regular trailing span

def readCall (n : Node) (children : List Site) (info : Info) : Adapter Expr :=
  match inRole? children "function" with
  | none => Adapter.errorExpr n .unrecognizedSyntax "call without a callee"
  | some callee => do
    let function ← callee.expr
    let regular ← readArguments children
    let trailing ← (inRole? children "trailing_closure").mapM Site.expr
    let declaration := calleeDeclaration? (← read).symbols callee.head
    match arrange declaration regular trailing n.head.span with
    | .ok arguments => return .call function arguments trailing.isSome false info
    | .error e => Adapter.errorExpr n e.code e.message

end Ferry.Source
