/-
  Ferry.Program.Encode

  Program trees as JSON. Every node is an object with its kind under `k`; what is absent or false is
  left out. Integers and floating-point numbers are written as text, so that no digit is lost.
-/
import Ferry.Json.Value
import Ferry.Program.Shuffle
import Ferry.Program.Text

namespace Ferry.Encode

open Json
open Json.Value (flag)

def span (span : Span) : Value :=
  .array [.nat span.start, .nat span.stop]

def diagnostic (d : Diagnostic) : Value :=
  .object [("severity", .string d.severity.text), ("code", .orNull (.string ·.text) d.code),
    ("message", .string d.message), ("range", .orNull span d.span),
    ("snapshot", .text? d.snapshot), ("suggestion", .text? d.suggestion)]

def enumKind : EnumKind → String
  | .hasPayload => "payload"
  | .payloadFree => "payload_free"

def node (kind : String) (fields : List (String × Option Value)) : Value :=
  .record (("k", some (.string kind)) :: fields)

/-- A text that is always written. -/
def text (words : String) : Option Value :=
  some (.string words)

def texts (words : List String) : Option Value :=
  some (.strings words)

def info (info : Info) : List (String × Option Value) :=
  [("ty", info.ty.map .string), ("range", info.span.map span)]

def place (at? : Option Span) : List (String × Option Value) :=
  [("range", at?.map span)]

def literal : Literal → List (String × Option Value)
  | .int n => [("lit", text "int"), ("value", text (toString n))]
  | .uint n => [("lit", text "uint"), ("value", text (toString n))]
  | .double x => [("lit", text "double"), ("value", text (Number.Format.double.text x))]
  | .float x => [("lit", text "float"), ("value", text (Number.Format.single.text x))]
  | .bool b => [("lit", text "bool"), ("value", some (.bool b))]
  | .string s => [("lit", text "string"), ("value", text s)]
  | .character s => [("lit", text "char"), ("value", text s)]
  | .nil => [("lit", text "nil")]

def shuffleIndex : ShuffleIndex → Value
  | .absent => .string "absent"
  | .present => .string "present"
  | .variadic count => .nat count

/-- What a function is, unless it is a plain function. -/
def functionKind : FunctionKind → Option Value
  | .function => none
  | .initializer failable => text (if failable then "failable" else "plain")

def typeHead (head : TypeHead) : List (String × Option Value) :=
  [("name", text head.name), ("inherits", texts head.inherits), ("access", head.access.map .string)]

def functionHead (head : FunctionHead) : List (String × Option Value) :=
  [("name", text head.name), ("init", functionKind head.kind), ("generics", texts head.generics),
   ("returns", head.returns.map .string), ("access", head.access.map .string),
   ("static", flag head.isStatic), ("override", flag head.isOverride),
   ("mutating", flag head.isMutating), ("throws", flag head.isThrowing),
   ("pure", flag head.isPure), ("extends", head.receiver.map .string)]

mutual

def expr : Expr → Value
  | .literal value at? => node "literal" (literal value ++ info at?)
  | .array elements at? => node "array" (("elements", some (.array (exprs elements))) :: info at?)
  | .dictionary keys values at? =>
    node "dictionary" ([("keys", some (.array (exprs keys))),
      ("values", some (.array (exprs values)))] ++ info at?)
  | .name n isLibrary isImplicit at? =>
    node "decl_ref" ([("name", text n), ("stdlib", flag isLibrary),
      ("implicit", flag isImplicit)] ++ info at?)
  | .member base n isLibrary style at? =>
    node "member" ([("base", some (expr base)), ("member", text n), ("stdlib", flag isLibrary),
      ("style", style.map (.string ∘ enumKind))] ++ info at?)
  | .call callee arguments hasTrailing isPure at? =>
    node "call" ([("function", some (expr callee)), ("arguments", some (expr arguments)),
      ("trailing", flag hasTrailing), ("pure", flag isPure)] ++ info at?)
  | .closure parameters body at? =>
    node "closure" ([("parameters", some (.array (parameters.map fun p =>
        .array [.string p.name, .text? p.ty]))), ("statements", some (.array (stmts body)))] ++
      info at?)
  | .subscript base index at? =>
    node "subscript" ([("base", some (expr base)), ("index", some (expr index))] ++ info at?)
  | .prefixOp op e at? =>
    node "prefix" ([("op", text op), ("operand", some (expr e))] ++ info at?)
  | .postfixOp op e at? =>
    node "postfix" ([("op", text op), ("operand", some (expr e))] ++ info at?)
  | .binary lhs op rhs at? =>
    node "binary" ([("lhs", some (expr lhs)), ("op", text op), ("rhs", some (expr rhs))] ++
      info at?)
  | .ternary condition yes no at? =>
    node "ternary" ([("condition", some (expr condition)), ("then", some (expr yes)),
      ("else", some (expr no))] ++ info at?)
  | .typeName n at? => node "type_ref" (("name", text n) :: info at?)
  | .tuple elements at? => node "tuple" (("pairs", some (.array (arguments elements))) :: info at?)
  | .shuffle slots at? =>
    node "shuffle" ([("labels", some (.array (slots.map (Value.text? ·.label)))),
      ("indices", some (.array (slots.map (shuffleIndex ∘ Shuffle.indexOf)))),
      ("expressions", some (.array (slotValues slots)))] ++ info at?)
  | .paren inner at? => node "paren" (("expr", some (expr inner)) :: info at?)
  | .optional inner at? => node "optional" (("expr", some (expr inner)) :: info at?)
  | .force inner at? => node "force" (("expr", some (expr inner)) :: info at?)
  | .interpolation parts at? =>
    node "interpolation" (("parts", some (.array (segments parts))) :: info at?)
  | .code words at? => node "code" (("code", text words) :: info at?)
  | .error d at? => node "error" (("diagnostic", some (diagnostic d)) :: place at?)

def exprs : List Expr → List Value
  | [] => []
  | e :: rest => expr e :: exprs rest

def arguments : List Argument → List Value
  | [] => []
  | ⟨label, value⟩ :: rest => .array [.text? label, expr value] :: arguments rest

def slotValues : List Slot → List Value
  | [] => []
  | .absent _ :: rest => slotValues rest
  | .present _ value :: rest => expr value :: slotValues rest
  | .variadic _ values :: rest => exprs values ++ slotValues rest

def segments : List Segment → List Value
  | [] => []
  | .text words :: rest => .string words :: segments rest
  | .value e :: rest => expr e :: segments rest

def parameters : List Parameter → List Value
  | [] => []
  | ⟨label, name, ty, default, isVariadic⟩ :: rest =>
    node "parameter" [("label", label.map .string), ("name", text name), ("ty", text ty),
      ("default", match default with
        | some e => some (expr e)
        | none => none), ("variadic", flag isVariadic)] :: parameters rest

def item : Variable → Value
  | ⟨name, ty, initializer, isLet, isStatic, getter, setter, access, receiver, at?⟩ =>
    node "variable" [("name", text name), ("ty", ty.map .string),
      ("initializer", match initializer with
        | some e => some (expr e)
        | none => none),
      ("let", flag isLet), ("static", flag isStatic),
      ("getter", match getter with
        | some body => some (.array (stmts body))
        | none => none),
      ("setter", match setter with
        | some body => some (.array (stmts body))
        | none => none),
      ("access", access.map .string), ("extends", receiver.map .string), ("range", at?.map span)]

def elements : List EnumElement → List Value
  | [] => []
  | ⟨name, payload, rawValue, at?⟩ :: rest =>
    node "element" [("name", text name),
      ("values", some (.array (payload.map fun field =>
        .array [.text? field.label, .string field.ty]))),
      ("raw", match rawValue with
        | some e => some (expr e)
        | none => none), ("range", at?.map span)] :: elements rest

def conditions : List Condition → List Value
  | [] => []
  | .test e :: rest => expr e :: conditions rest
  | .binding v :: rest => item v :: conditions rest

def cases : List SwitchCase → List Value
  | [] => []
  | ⟨patterns, body, at?⟩ :: rest =>
    node "case" ([("expressions", some (.array (exprs patterns))),
      ("statements", some (.array (stmts body)))] ++ place at?) :: cases rest

def stmt : Stmt → Value
  | .importDecl module at? => node "import" (("module", text module) :: place at?)
  | .classDecl head isFinal members at? =>
    node "class" (typeHead head ++ [("generics", texts head.generics),
      ("members", some (.array (stmts members))), ("final", flag isFinal)] ++ place at?)
  | .structDecl head members at? =>
    node "struct" (typeHead head ++ [("generics", texts head.generics),
      ("members", some (.array (stmts members)))] ++ place at?)
  | .protocolDecl head members at? =>
    node "protocol" (typeHead head ++ [("members", some (.array (stmts members)))] ++ place at?)
  | .enumDecl head kind list members at? =>
    node "enum" (typeHead head ++ [("elements", some (.array (elements list))),
      ("members", some (.array (stmts members))), ("kind", kind.map (.string ∘ enumKind))] ++
      place at?)
  | .extensionDecl extended inherits members at? =>
    node "extension" ([("type_name", text extended), ("inherits", texts inherits),
      ("members", some (.array (stmts members)))] ++ place at?)
  | .companion members at? =>
    node "companion" (("members", some (.array (stmts members))) :: place at?)
  | .function head list body at? =>
    node "function" (functionHead head ++ [("parameters", some (.array (parameters list))),
      ("body", match body with
        | some body => some (.array (stmts body))
        | none => none)] ++ place at?)
  | .declare v => item v
  | .ifStmt list body otherwise isGuard at? =>
    node "if" ([("conditions", some (.array (conditions list))),
      ("statements", some (.array (stmts body))),
      ("else", match otherwise with
        | some body => some (.array (stmts body))
        | none => none), ("guard", flag isGuard)] ++ place at?)
  | .switchStmt subject list target at? =>
    node "switch" ([("subject", some (expr subject)), ("cases", some (.array (cases list))),
      ("target", match target with
        | some .returned => text "return"
        | some (.assigned lhs) => some (expr lhs)
        | some (.declared v) => some (item v)
        | none => none)] ++ place at?)
  | .forEach loop collection body at? =>
    node "for-each" ([("variable", some (expr loop)), ("collection", some (expr collection)),
      ("statements", some (.array (stmts body)))] ++ place at?)
  | .whileLoop condition body at? =>
    node "while" ([("condition", some (expr condition)),
      ("statements", some (.array (stmts body)))] ++ place at?)
  | .doBlock body cleanup at? =>
    node "do" ([("statements", some (.array (stmts body))),
      ("finally", some (.array (stmts cleanup)))] ++ place at?)
  | .catchBlock v body at? =>
    node "catch" ([("variable", match v with
        | some v => some (item v)
        | none => none), ("statements", some (.array (stmts body)))] ++ place at?)
  | .deferBlock body at? => node "defer" (("statements", some (.array (stmts body))) :: place at?)
  | .throwStmt e at? => node "throw" (("expr", some (expr e)) :: place at?)
  | .returnStmt e at? =>
    node "return" (("expr", match e with
      | some e => some (expr e)
      | none => none) :: place at?)
  | .breakStmt at? => node "break" (place at?)
  | .continueStmt at? => node "continue" (place at?)
  | .assign lhs rhs at? =>
    node "assignment" ([("lhs", some (expr lhs)), ("rhs", some (expr rhs))] ++ place at?)
  | .expression e at? => node "expression" (("expr", some (expr e)) :: place at?)
  | .comment words at? => node "comment" (("text", text words) :: place at?)
  | .errorStmt d at? => node "error" (("diagnostic", some (diagnostic d)) :: place at?)

def stmts : List Stmt → List Value
  | [] => []
  | s :: rest => stmt s :: stmts rest

end

/-- Slots with how they are supplied and with the texts of their values. -/
def slots (list : List Slot) : Value :=
  .array (list.map fun slot => .array [.text? slot.label, shuffleIndex (Shuffle.indexOf slot),
    .nat (Shuffle.indexOf slot).width, .strings (slot.values.map Expr.text)])

def outputs (list : List (String × String)) : Value :=
  .array (list.map fun (tag, path) => .strings [tag, path])

def file (f : SourceFile) : Value :=
  .object [("path", .string f.path), ("declarations", .array (stmts f.declarations)),
    ("statements", .array (stmts f.statements)), ("outputs", outputs f.outputs)]

end Ferry.Encode
