/-
  Ferry.Program.Decode

  Program trees from JSON, the reverse of `Ferry.Program.Encode`. Missing fields read as absent,
  false or empty. The nesting of a JSON text is limited, so the limit is fuel enough.
-/
import Ferry.Diagnostic.Format
import Ferry.Program.Encode
import Ferry.Program.File
import Ferry.Registry

namespace Ferry

open Json

inductive DecodeError where
  /-- A range that ends before it starts. -/
  | reversedRange
  | unknownCode (text : String)
  | unknownNode (kind : String)
  | missing (field : String)
  | badLiteral (kind text : String)
  | badShuffle (error : ShuffleError)
  | tooDeep
deriving DecidableEq

def DecodeError.message : DecodeError → String
  | reversedRange => "range ends before it starts"
  | unknownCode text => "unknown diagnostic code '" ++ text ++ "'"
  | unknownNode kind => "unknown node kind '" ++ kind ++ "'"
  | missing field => "missing field '" ++ field ++ "'"
  | badLiteral kind text => "bad " ++ kind ++ " literal '" ++ text ++ "'"
  | badShuffle error => error.message
  | tooDeep => "nested too deeply"

abbrev Decoded := Except DecodeError

namespace Decode

def span? (value : Value) (field : String) : Decoded (Option Span) :=
  match value.field? field with
  | some (.array [start, stop]) =>
    let start := start.asNat?.getD 0
    let stop := stop.asNat?.getD 0
    if start ≤ stop then .ok (some ⟨start, stop⟩) else .error .reversedRange
  | _ => .ok none

def diagnostic (value : Value) : Decoded Diagnostic := do
  let message := value.textField "message"
  let base ← match value.textField? "code" with
    | some text =>
      match Code.ofText? text with
      | some code => pure (Diagnostic.ofCode code message)
      | none => throw (.unknownCode text)
    | none =>
      pure (if value.textField "severity" = "warning" then .warning message else .error message)
  return { base with
    span := ← span? value "range"
    snapshot := value.textField? "snapshot" <|> base.snapshot
    suggestion := value.textField? "suggestion" <|> base.suggestion }

def displayConfig (value : Value) : DisplayConfig :=
  let base : DisplayConfig := match value.textField "config" with
    | "minimal" => .minimal
    | "verbose" => .verbose
    | _ => {}
  { base with
    suppressed := (value.textsField "suppress").filterMap Code.ofText?
    contextLines := (value.natField? "context_lines").getD base.contextLines }

/-- A diagnostic with the part of a source that it is about. -/
def report (value : Value) : Decoded Report := do
  let context := (value.field? "context").getD .null
  let excerpt := (← span? context "span").map fun span =>
    { source := context.textField "source", span, filename := context.textField? "filename" }
  return { diagnostic := ← diagnostic value, excerpt }

def enumKind? : String → Option EnumKind
  | "payload" => some .hasPayload
  | "payload_free" => some .payloadFree
  | _ => none

/-- A whole number with an optional sign. -/
def whole? (text : String) : Option Int :=
  let digits? (cs : List Char) : Option Nat :=
    if cs.isEmpty || !cs.all Char.isDigit then none else some (Number.digitsValue cs)
  match text.toList with
  | '-' :: cs => (digits? cs).map fun n => -(n : Int)
  | '+' :: cs => (digits? cs).map Int.ofNat
  | cs => (digits? cs).map Int.ofNat

def literal (value : Value) : Decoded Literal :=
  let kind := value.textField "lit"
  let text := value.textField "value"
  let need {α : Type} (read : Option α) (make : α → Literal) : Decoded Literal :=
    match read with
    | some a => .ok (make a)
    | none => .error (.badLiteral kind text)
  match kind with
  | "int" => need (whole? text) .int
  | "uint" => need (whole? text) fun n => .uint n.toNat
  | "double" => need (Number.Format.double.read? text) .double
  | "float" => need (Number.Format.single.read? text) .float
  | "bool" => .ok (.bool (value.boolField "value"))
  | "string" => .ok (.string text)
  | "char" => .ok (.character text)
  | "nil" => .ok .nil
  | _ => .error (.badLiteral kind text)

def shuffleIndex : Value → ShuffleIndex
  | .string "absent" => .absent
  | .string _ => .present
  | value => .variadic (value.asNat?.getD 0)

def typeHead (value : Value) : TypeHead where
  name := value.textField "name"
  generics := value.textsField "generics"
  inherits := value.textsField "inherits"
  access := value.textField? "access"

def functionKind : String → FunctionKind
  | "failable" => .initializer true
  | "plain" => .initializer false
  | _ => .function

def functionHead (value : Value) : FunctionHead where
  name := value.textField "name"
  kind := functionKind (value.textField "init")
  generics := value.textsField "generics"
  returns := value.textField? "returns"
  access := value.textField? "access"
  isStatic := value.boolField "static"
  isOverride := value.boolField "override"
  isMutating := value.boolField "mutating"
  isThrowing := value.boolField "throws"
  isPure := value.boolField "pure"
  receiver := value.textField? "extends"

/-- Reads the value under a field that must be there. -/
def needed {α : Type} (read : Value → Decoded α) (value : Value) (field : String) : Decoded α :=
  match value.field? field with
  | some inner => read inner
  | none => .error (.missing field)

def optional {α : Type} (read : Value → Decoded α) (value : Value) (field : String) :
    Decoded (Option α) :=
  match value.field? field with
  | some .null => .ok none
  | some inner => (read inner).map some
  | none => .ok none

def many {α : Type} (read : Value → Decoded α) (value : Value) (field : String) :
    Decoded (List α) :=
  (value.itemsField field).mapM read

/-- Reads the items under a field that may be missing. -/
def manyOptional {α : Type} (read : Value → Decoded α) (value : Value) (field : String) :
    Decoded (Option (List α)) :=
  match value.field? field with
  | some (.array items) => (items.mapM read).map some
  | _ => .ok none

mutual

def expr : Nat → Value → Decoded Expr
  | 0, _ => .error .tooDeep
  | fuel + 1, value => do
    let info : Info := { ty := value.textField? "ty", span := ← span? value "range" }
    let one (field : String) : Decoded Expr := needed (expr fuel) value field
    let all (field : String) : Decoded (List Expr) := many (expr fuel) value field
    match value.textField "k" with
    | "literal" => return .literal (← literal value) info
    | "array" => return .array (← all "elements") info
    | "dictionary" => return .dictionary (← all "keys") (← all "values") info
    | "decl_ref" =>
      return .name (value.textField "name") (value.boolField "stdlib") (value.boolField "implicit")
        info
    | "member" =>
      return .member (← one "base") (value.textField "member") (value.boolField "stdlib")
        (enumKind? (value.textField "style")) info
    | "call" =>
      return .call (← one "function") (← one "arguments") (value.boolField "trailing")
        (value.boolField "pure") info
    | "closure" =>
      let parameters := (value.itemsField "parameters").map fun p =>
        { name := (p.item 0).asText?.getD "", ty := (p.item 1).asText? }
      return .closure parameters (← many (stmt fuel) value "statements") info
    | "subscript" => return .subscript (← one "base") (← one "index") info
    | "prefix" => return .prefixOp (value.textField "op") (← one "operand") info
    | "postfix" => return .postfixOp (value.textField "op") (← one "operand") info
    | "binary" => return .binary (← one "lhs") (value.textField "op") (← one "rhs") info
    | "ternary" => return .ternary (← one "condition") (← one "then") (← one "else") info
    | "type_ref" => return .typeName (value.textField "name") info
    | "tuple" =>
      let elements ← (value.itemsField "pairs").mapM fun pair => do
        return (⟨(pair.item 0).asText?, ← expr fuel (pair.item 1)⟩ : Argument)
      return .tuple elements info
    | "shuffle" =>
      let labels := (value.itemsField "labels").map Value.asText?
      match Shuffle.ofParts labels ((value.itemsField "indices").map shuffleIndex)
          (← all "expressions") with
      | .ok slots => return .shuffle slots info
      | .error error => throw (.badShuffle error)
    | "paren" => return .paren (← one "expr") info
    | "optional" => return .optional (← one "expr") info
    | "force" => return .force (← one "expr") info
    | "interpolation" =>
      let parts ← (value.itemsField "parts").mapM fun part => match part with
        | .string words => pure (Segment.text words)
        | part => do return Segment.value (← expr fuel part)
      return .interpolation parts info
    | "code" => return .code (value.textField "code") info
    | "error" => return .error (← needed diagnostic value "diagnostic") info.span
    | kind => throw (.unknownNode kind)

def item : Nat → Value → Decoded Variable
  | 0, _ => .error .tooDeep
  | fuel + 1, value => do
    return { name := value.textField "name"
             ty := value.textField? "ty"
             initializer := ← optional (expr fuel) value "initializer"
             isLet := value.boolField "let"
             isStatic := value.boolField "static"
             getter := ← manyOptional (stmt fuel) value "getter"
             setter := ← manyOptional (stmt fuel) value "setter"
             access := value.textField? "access"
             receiver := value.textField? "extends"
             span := ← span? value "range" }

def stmt : Nat → Value → Decoded Stmt
  | 0, _ => .error .tooDeep
  | fuel + 1, value => do
    let span ← span? value "range"
    let one (field : String) : Decoded Expr := needed (expr fuel) value field
    let body (field : String) : Decoded (List Stmt) := many (stmt fuel) value field
    match value.textField "k" with
    | "import" => return .importDecl (value.textField "module") span
    | "class" =>
      return .classDecl (typeHead value) (value.boolField "final") (← body "members") span
    | "struct" => return .structDecl (typeHead value) (← body "members") span
    | "protocol" =>
      return .protocolDecl { typeHead value with generics := [] } (← body "members") span
    | "enum" =>
      let elements ← (value.itemsField "elements").mapM fun element => do
        return ({ name := element.textField "name"
                  payload := (element.itemsField "values").map fun field =>
                    { label := (field.item 0).asText?, ty := (field.item 1).asText?.getD "" }
                  rawValue := ← optional (expr fuel) element "raw"
                  span := ← span? element "range" } : EnumElement)
      return .enumDecl { typeHead value with generics := [] }
        (enumKind? (value.textField "kind")) elements (← body "members") span
    | "extension" =>
      return .extensionDecl (value.textField "type_name") (value.textsField "inherits")
        (← body "members") span
    | "companion" => return .companion (← body "members") span
    | "function" =>
      let parameters ← (value.itemsField "parameters").mapM fun p => do
        return ({ label := p.textField? "label"
                  name := p.textField "name"
                  ty := p.textField "ty"
                  default := ← optional (expr fuel) p "default"
                  isVariadic := p.boolField "variadic" } : Parameter)
      return .function (functionHead value) parameters (← manyOptional (stmt fuel) value "body")
        span
    | "variable" => return .declare (← item fuel value)
    | "if" =>
      let conditions ← (value.itemsField "conditions").mapM fun condition => do
        if condition.textField "k" = "variable" then
          return Condition.binding (← item fuel condition)
        else return Condition.test (← expr fuel condition)
      return .ifStmt conditions (← body "statements") (← manyOptional (stmt fuel) value "else")
        (value.boolField "guard") span
    | "switch" =>
      let cases ← (value.itemsField "cases").mapM fun c => do
        return ({ patterns := ← many (expr fuel) c "expressions"
                  body := ← many (stmt fuel) c "statements"
                  span := ← span? c "range" } : SwitchCase)
      let target ← match value.field? "target" with
        | none => pure none
        | some .null => pure none
        | some (.string _) => pure (some SwitchTarget.returned)
        | some target =>
          if target.textField "k" = "variable" then
            pure (some (.declared (← item fuel target)))
          else pure (some (.assigned (← expr fuel target)))
      return .switchStmt (← one "subject") cases target span
    | "for-each" =>
      return .forEach (← one "variable") (← one "collection") (← body "statements") span
    | "while" => return .whileLoop (← one "condition") (← body "statements") span
    | "do" => return .doBlock (← body "statements") (← body "finally") span
    | "catch" =>
      return .catchBlock (← optional (item fuel) value "variable") (← body "statements") span
    | "defer" => return .deferBlock (← body "statements") span
    | "throw" => return .throwStmt (← one "expr") span
    | "return" => return .returnStmt (← optional (expr fuel) value "expr") span
    | "break" => return .breakStmt span
    | "continue" => return .continueStmt span
    | "assignment" => return .assign (← one "lhs") (← one "rhs") span
    | "expression" => return .expression (← one "expr") span
    | "comment" => return .comment (value.textField "text") span
    | "error" => return .errorStmt (← needed diagnostic value "diagnostic") span
    | kind => throw (.unknownNode kind)

end

/-- More than the nesting of any JSON text. -/
def fuel : Nat := 256

/-- Reads a file; it is `main.swift` unless it says otherwise. -/
def file (value : Value) : Decoded SourceFile := do
  let bare : SourceFile :=
    { path := (value.textField? "path").getD "main.swift"
      declarations := ← many (stmt fuel) value "declarations"
      statements := ← many (stmt fuel) value "statements" }
  return (value.textsField "outputs").foldl SourceFile.addOutput bare

def registry (value : Value) : Registry :=
  let enums := (value.itemsField "enums").map fun e =>
    Fact.enumeration (e.textField "name")
      ((enumKind? (e.textField "kind")).getD .payloadFree) (e.textsField "cases")
  let functions := (value.itemsField "functions").map fun f =>
    Fact.function (f.textField "key") (f.textsField "names")
  Registry.empty.recordAll <| enums ++ (value.textsField "protocols").map .protocolType ++
    functions ++ (value.textsField "pure").map .pureFunction ++
    (value.textsField "structs").map .structType ++ (value.textsField "classes").map .classType

end Decode

end Ferry
