/-
  Ferry.Target.Emit

  From the program tree to documents of the target language. Every node has one wording, which does
  not depend on the layout; parentheses are added where the target would otherwise group operands
  differently.
-/
import Ferry.Program.Switch
import Ferry.Target.Operator
import Ferry.Target.Phrase
import Ferry.Target.Piece
import Ferry.Text.Letter

namespace Ferry.Target

open Document (joinWith parenthesized)

/-- Where an expression is written. -/
inductive Role where
  | value
  /-- A branch of a `when` with this subject: parentheses around it are not needed, and a subtype
  check of the subject leaves the subject out. -/
  | branch (subject : Expr)

/-- An operand, in parentheses where they are needed. -/
def operand (e : Expr) (written : Document) (parent : Precedence) (tieWraps : Bool) : Document :=
  if needsParentheses (precedenceOf e) parent tieWraps then parenthesized written else written

def binaryDocument (lhs : Expr) (op : String) (rhs : Expr) (left right : Document) : Document :=
  let op := operatorText op
  let precedence := operatorPrecedence op
  let left := operand lhs left precedence (isRightAssociative op)
  let right := operand rhs right precedence (!isRightAssociative op)
  .cat [left, .text (if isTight op then op else " " ++ op ++ " "), right]

def isRangeOperator (op : String) : Bool :=
  op == "..." || op == "..<"

def isRange (e : Expr) : Bool :=
  match e.unparenthesized with
  | .binary _ op _ _ => isRangeOperator op
  | _ => false

/-- A tuple; the target has types for two and three elements. -/
def tupleDocument : List Document → Document
  | [] => .text "Unit"
  | [single] => single
  | [a, b] => .list (.text "Pair") [a, b] (.text "")
  | [a, b, c] => .list (.text "Triple") [a, b, c] (.text "")
  | elements => .list (.text "listOf") elements (.text "")

structure WrittenArgument where
  label : Option String
  isClosure : Bool
  value : Document

namespace WrittenArgument

def ofExpr (label : Option String) (e : Expr) (value : Document) : WrittenArgument where
  label
  isClosure := match e with
    | .closure .. => true
    | _ => false
  value

def document (argument : WrittenArgument) : Document :=
  match argument.label with
  | some label => .cat [.text (identifier label ++ " = "), argument.value]
  | none => argument.value

end WrittenArgument

/-- A call from its written parts. A closure at the end may follow the parentheses. -/
def callDocument (callee : Document) (arguments : List WrittenArgument) (hasTrailing : Bool) :
    Document :=
  let documents := arguments.map WrittenArgument.document
  match arguments.getLast? with
  | some last =>
    if hasTrailing && last.isClosure then
      if documents.length = 1 then .cat [callee, .text " ", last.value]
      else .list callee documents.dropLast (.cat [.text " ", last.value])
    else .list callee documents (.text "")
  | none => .list callee documents (.text "")

/-- Whether the callee is written as a member `init`, which the target leaves out. -/
def isInitializer (name : String) : Bool :=
  name == "init"

/-- A reference to the enclosing object that the source left out. -/
def isImplicitSelf : Expr → Bool
  | .name n _ isImplicit _ => isImplicit && n == "self"
  | _ => false

/-- Whether a name in a string has to be set off from the segments after it. -/
def continuesName : List Segment → Bool
  | .text text :: _ => text.toList.head?.any fun c => Text.isAlphanumeric c || c == '_'
  | _ => false

/-- An expression in a string; a plain name needs no braces unless the text after it continues
it. -/
def segmentDocument (e : Expr) (written : Document) (rest : List Segment) : Document :=
  match e with
  | .name .. =>
    if continuesName rest then .cat [.text "$\x7b", written, .text "\x7d"]
    else .cat [.text "$", written]
  | _ => .cat [.text "$\x7b", written, .text "\x7d"]

/-- A member access from its written base. -/
def memberName (name : String) (style : Option EnumKind) : String :=
  match style with
  | some style => caseName name style
  | none => identifier name

/-- Whether a member becomes a parameter of the primary constructor. -/
def isStored : Stmt → Bool
  | .declare item => !item.isStatic && !item.isComputed && item.ty.isSome && item.receiver.isNone
  | _ => false

def isSealed (registry : Registry) (name : String) (kind : Option EnumKind)
    (elements : List EnumElement) : Bool :=
  match kind <|> registry.enumKind? name with
  | some kind => kind == .hasPayload
  | none => elements.any fun element => !element.payload.isEmpty

def payloadTexts (fields : List PayloadField) : List String :=
  fields.mapIdx fun index field =>
    let label := match field.label with
      | some label => identifier label
      | none => if fields.length = 1 then "value" else "value" ++ toString (index + 1)
    "val " ++ label ++ ": " ++ typeText field.ty

def sealedCase (parent : String) (element : EnumElement) : Row :=
  let parent := " : " ++ parent ++ "()"
  let name := capitalized element.name
  if element.payload.isEmpty then .ofText ("object " ++ name ++ parent)
  else .ofDocument (.list (.text ("class " ++ name)) ((payloadTexts element.payload).map .text)
    (.text parent))

/-- The largest raw value of an integer case. -/
def greatestRawValue : Int := 9223372036854775807

def successor? (value : Int) : Option Int :=
  if value < greatestRawValue then some (value + 1) else none

/-- The entries of an enumeration class with their raw values. A case without a value of its own
counts on from the one before, or is its own name. -/
def enumEntries (rawType : Option String) :
    (next : Option Int) → List (EnumElement × Option Document) → List Document
  | _, [] => []
  | next, (element, written) :: rest =>
    let name := upperSnake element.name
    match rawType with
    | none => .text name :: enumEntries rawType next rest
    | some ty =>
      let (raw, next) : Document × Option Int := match written, element.rawValue with
        | some written, some (.literal (.int value) _) => (written, successor? value)
        | some written, _ => (written, next)
        | none, _ =>
          if ty = "String" then (.text ("\"" ++ element.name ++ "\""), next)
          else match next with
            | some value => (.text (toString value), successor? value)
            | none =>
              (.marker ("no raw value follows " ++ toString greatestRawValue), none)
      .cat [.text (name ++ "("), raw, .text ")"] :: enumEntries rawType next rest

/-- Entries as rows, with a comma between them; a semicolon ends them when members follow. -/
def entryRows (hasMembers : Bool) : List Document → List Row
  | [] => []
  | [entry] => [.ofDocument (.cat [entry, .text (if hasMembers then ";" else "")])]
  | entry :: rest => .ofDocument (.cat [entry, .text ","]) :: entryRows hasMembers rest

def memberRows (hasMembers : Bool) (rows : List Row) : List Row :=
  if hasMembers then Row.blank :: rows else []

/-- Members in braces, or nothing without members. -/
def memberBlock (hasMembers : Bool) (rows : List Row) : Document :=
  if hasMembers then .cat [.text " ", .block "\x7b" rows] else .text ""

/-- An enumeration from its written raw values and members. -/
def enumDocument (registry : Registry) (head : TypeHead) (kind : Option EnumKind)
    (elements : List EnumElement) (rawValues : List (Option Document)) (hasMembers : Bool)
    (members : List Row) : Document :=
  if isSealed registry head.name kind elements then
    .cat [.text (accessText head.access ++ "sealed class " ++ head.name ++
        supertypesText registry head.inherits ++ " "),
      .block "\x7b" (elements.map (sealedCase head.name) ++ memberRows hasMembers members)]
  else
    let rawType := head.inherits.head?.filter rawTypes.contains
    let interfaces := head.inherits.filter fun ty => some ty ≠ rawType
    let constructor := match rawType with
      | some ty => "(val rawValue: " ++ typeText ty ++ ")"
      | none => ""
    let entries := enumEntries rawType (some 0) (elements.zip rawValues)
    .cat [.text (accessText head.access ++ "enum class " ++ head.name ++ constructor ++
        supertypesText registry interfaces ++ " "),
      .block "\x7b" (entryRows hasMembers entries ++ memberRows hasMembers members)]

/-- A condition, ready to be joined with others. -/
structure WrittenCondition where
  /-- The expression of a test; a binding is written as a comparison with `null`. -/
  test : Option Expr
  written : Document

def WrittenCondition.operand (condition : WrittenCondition) (parent : Precedence) : Document :=
  match condition.test with
  | some e => Target.operand e condition.written parent false
  | none => condition.written

def boundNames (conditions : List Condition) : List String :=
  conditions.filterMap fun
    | .binding item => some item.name
    | .test _ => none

def Condition.isBinding : Condition → Bool
  | .binding _ => true
  | .test _ => false

/-- All conditions at once. -/
def conjunction (conditions : List WrittenCondition) : Document :=
  .cat (joinWith " && " (conditions.map fun c => c.operand .conjunction))

/-- What stands in the parentheses of an `if`; a guard runs its block when the conditions fail. -/
def ifCondition (isGuard : Bool) (conditions : List Condition) (written : List WrittenCondition) :
    Document :=
  if !isGuard then conjunction written
  else if conditions.all Condition.isBinding then
    .text (" || ".intercalate ((boundNames conditions).map fun n => identifier n ++ " == null"))
  else match written with
    | [single] => .cat [.text "!", single.operand .prefixed]
    | _ => .cat [.text "!(", conjunction written, .text ")"]

/-- Whether the statements after `else` are one more `if` that can follow it directly. -/
def chainsIf : List Stmt → Bool
  | [.ifStmt conditions _ _ isGuard _] => !isGuard && !conditions.any Condition.isBinding
  | _ => false

def testDocument (subject : Expr) (writtenSubject : Document) (e : Expr) (written : Document) :
    Document :=
  if Switch.isTest subject e then operand e written .disjunction false
  else
    let (op, precedence) := if isRange e then (" in ", Precedence.namedCheck)
      else (" == ", Precedence.equality)
    .cat [operand subject writtenSubject precedence false, .text op,
      operand e written precedence true]

/-- Whether a body of a case may go without braces. -/
def isShortBody : List Stmt → Bool
  | [.declare _] => false
  | [_] => true
  | _ => false

def branchDocument (body : List Stmt) (rows : List Row) : Document :=
  if body.isEmpty then .text "\x7b\x7d" else .branch (isShortBody body) rows

def handlerText : Option Variable → String
  | some item => identifier item.name ++ ": " ++ typeText (item.ty.getD "Error")
  | none => "error: Exception"

/-- Calls standing alone keep together. -/
def expressionFamily : Expr → Family
  | .call .. => .call
  | _ => .other

/-- The pieces of members that do not become parameters of the primary constructor. -/
def otherMembers (members : List Stmt) (pieces : List Piece) : List Piece :=
  (members.zip pieces).filterMap fun (member, piece) => if isStored member then none else some piece

section

variable (registry : Registry)

mutual

def exprDocument (role : Role) : Expr → Document
  | .literal value _ => .text (literalText value)
  | .array elements info =>
    if elements.isEmpty then .text (emptyCollection "mutableListOf" "MutableList" info.ty)
    else .list (.text "mutableListOf") (exprDocuments .value elements) (.text "")
  | .dictionary keys values info =>
    if keys.isEmpty then .text (emptyCollection "mutableMapOf" "MutableMap" info.ty)
    else
      let keys := List.zipWith (fun e d => operand e d .infixCall false) keys
        (exprDocuments .value keys)
      let values := List.zipWith (fun e d => operand e d .infixCall true) values
        (exprDocuments .value values)
      .list (.text "mutableMapOf")
        (List.zipWith (fun key value => .cat [key, .text " to ", value]) keys values) (.text "")
  | .name n _ _ _ => .text (referenceText n)
  | .member base n _ style _ =>
    if isImplicitSelf base then .text (memberName n style)
    else match base with
      | .optional inner _ =>
        .cat [operand inner (exprDocument .value inner) .postfixed false,
          .text ("?." ++ memberName n style)]
      | base =>
        .cat [operand base (exprDocument .value base) .postfixed false,
          .text ("." ++ memberName n style)]
  | .call callee arguments hasTrailing _ _ =>
    let written := match callee with
      | .member base n isLibrary style info =>
        if isInitializer n then operand base (exprDocument .value base) .postfixed false
        else exprDocument .value (.member base n isLibrary style info)
      | callee => operand callee (exprDocument .value callee) .postfixed false
    let items := match arguments with
      | .tuple elements _ => argumentItems elements
      | .shuffle slots _ => slotItems slots
      | .paren inner _ => [.ofExpr none inner (exprDocument .value inner)]
      | arguments => [.ofExpr none arguments (exprDocument .value arguments)]
    callDocument written items hasTrailing
  | .closure parameters body _ =>
    match body with
    | [.expression value _] => .lambda (lambdaOpening parameters) (exprDocument .value value)
    | [.returnStmt (some value) _] => .lambda (lambdaOpening parameters) (exprDocument .value value)
    | body => .block (lambdaOpening parameters) (assemble (pieces none true body))
  | .subscript base index _ =>
    let index := match index with
      | .tuple elements _ =>
        .cat (joinWith ", " ((argumentItems elements).map WrittenArgument.value))
      | index => exprDocument .value index
    .cat [operand base (exprDocument .value base) .postfixed false, .text "[", index, .text "]"]
  | .prefixOp op e _ =>
    if op = "~" then .cat [operand e (exprDocument .value e) .postfixed false, .text ".inv()"]
    else .cat [.text op, operand e (exprDocument .value e) .prefixed false]
  | .postfixOp op e _ => .cat [operand e (exprDocument .value e) .postfixed false, .text op]
  | .binary lhs op rhs _ =>
    match role with
    | .value => binaryDocument lhs op rhs (exprDocument .value lhs) (exprDocument .value rhs)
    | .branch subject =>
      if op = "is" ∧ Switch.mentions subject lhs then .cat [.text "is ", exprDocument .value rhs]
      else
        let written := binaryDocument lhs op rhs (exprDocument .value lhs) (exprDocument .value rhs)
        if isRangeOperator op then .cat [.text "in ", written] else written
  | .ternary condition yes no _ =>
    .cat [.text "if (", exprDocument .value condition, .text ") ",
      operand yes (exprDocument .value yes) .assignment false, .text " else ",
      exprDocument .value no]
  | .typeName n _ => .text (typeText n)
  | .tuple elements _ => tupleDocument ((argumentItems elements).map WrittenArgument.value)
  | .shuffle slots _ => tupleDocument ((slotItems slots).map WrittenArgument.value)
  | .paren inner _ =>
    match role with
    | .value => parenthesized (exprDocument .value inner)
    | .branch subject => exprDocument (.branch subject) inner
  | .optional inner _ => exprDocument .value inner
  | .force inner _ => .cat [operand inner (exprDocument .value inner) .postfixed false, .text "!!"]
  | .interpolation segments _ => .cat ([.text "\""] ++ segmentDocuments segments ++ [.text "\""])
  | .code text _ => .text text
  | .error diagnostic _ => .marker diagnostic.message

def exprDocuments (role : Role) : List Expr → List Document
  | [] => []
  | e :: rest => exprDocument role e :: exprDocuments role rest

def argumentItems : List Argument → List WrittenArgument
  | [] => []
  | ⟨label, value⟩ :: rest =>
    .ofExpr label value (exprDocument .value value) :: argumentItems rest

/-- The supplied arguments of slots; those of a variadic slot are written without labels. -/
def slotItems : List Slot → List WrittenArgument
  | [] => []
  | .absent _ :: rest => slotItems rest
  | .present label value :: rest =>
    .ofExpr label value (exprDocument .value value) :: slotItems rest
  | .variadic _ values :: rest =>
    List.zipWith (.ofExpr none) values (exprDocuments .value values) ++ slotItems rest

def segmentDocuments : List Segment → List Document
  | [] => []
  | .text text :: rest => .text (escapeDollars text) :: segmentDocuments rest
  | .value e :: rest => segmentDocument e (exprDocument .value e) rest :: segmentDocuments rest

def parameterDocuments : List Parameter → List Document
  | [] => []
  | ⟨label, name, ty, none, isVariadic⟩ :: rest =>
    .text (parameterText ⟨label, name, ty, none, isVariadic⟩) :: parameterDocuments rest
  | ⟨label, name, ty, some value, isVariadic⟩ :: rest =>
    .cat [.text (parameterText ⟨label, name, ty, none, isVariadic⟩ ++ " = "),
      exprDocument .value value] :: parameterDocuments rest

def variableDocument (receiver : Option String) : Variable → Document
  | ⟨name, ty, initializer, isLet, isStatic, getter, setter, access, own, span⟩ =>
    let head := variableHead ⟨name, ty, none, isLet, isStatic, getter, setter, access,
      own, span⟩ receiver
    match initializer with
    | some value => .cat [.text (head ++ " = "), exprDocument .value value]
    | none => .text head

def accessorRows : Variable → List Row
  | ⟨_, _, _, _, _, getter, setter, _, _, _⟩ =>
    (match getter with
      | some body => [⟨1, .cat [.text "get() ", .block "\x7b" (assemble (pieces none false body))]⟩]
      | none => []) ++
    (match setter with
      | some body =>
        [⟨1, .cat [.text "set(newValue) ", .block "\x7b" (assemble (pieces none false body))]⟩]
      | none => [])

/-- Stored members as parameters of the primary constructor. -/
def storedDocuments : List Stmt → List Document
  | [] => []
  | s :: rest =>
    match s with
    | .declare item =>
      if isStored (.declare item) then variableDocument none item :: storedDocuments rest
      else storedDocuments rest
    | _ => storedDocuments rest

def rawDocuments : List EnumElement → List (Option Document)
  | [] => []
  | ⟨_, _, some value, _⟩ :: rest => some (exprDocument .value value) :: rawDocuments rest
  | ⟨_, _, none, _⟩ :: rest => none :: rawDocuments rest

def conditionItems : List Condition → List WrittenCondition
  | [] => []
  | .test e :: rest => ⟨some e, exprDocument .value e⟩ :: conditionItems rest
  | .binding item :: rest =>
    ⟨none, .text (identifier item.name ++ " != null")⟩ :: conditionItems rest

def bindingRows : List Condition → List Row
  | [] => []
  | .test _ :: rest => bindingRows rest
  | .binding item :: rest =>
    .ofDocument (variableDocument none item) :: accessorRows item ++ bindingRows rest

/-- What follows the block of an `if`. -/
def elseDocuments : List Stmt → List Document
  | [] => [.text " else ", .block "\x7b" []]
  | s :: rest =>
    if chainsIf (s :: rest) then chainedDocuments s
    else [.text " else ", .block "\x7b" (assemble (piece none false s :: pieces none false rest))]

/-- An `if` that follows `else` directly. -/
def chainedDocuments : Stmt → List Document
  | .ifStmt conditions body otherwise _ _ =>
    [.text " else if (", conjunction (conditionItems conditions), .text ") ",
      .block "\x7b" (assemble (pieces none false body))] ++
      match otherwise with
      | some otherwise => elseDocuments otherwise
      | none => []
  | _ => []

/-- The cases of a switch with or without its subject. -/
def caseRows (subject : Expr) (writtenSubject : Document) (usesTests : Bool) :
    List SwitchCase → List Row
  | [] => []
  | ⟨patterns, body, _⟩ :: rest =>
    let label :=
      if patterns.isEmpty then [.text "else"]
      else if usesTests then
        joinWith " || " (List.zipWith (testDocument subject writtenSubject) patterns
          (exprDocuments .value patterns))
      else joinWith ", " (exprDocuments (.branch subject) patterns)
    .ofDocument (.cat (label ++ [.text " -> ",
      branchDocument body (assemble (pieces none false body))])) ::
      caseRows subject writtenSubject usesTests rest

/-- Members of a protocol with a blank line between them. -/
def requirementRows : List Stmt → List Row
  | [] => []
  | s :: rest =>
    (match s with
      | .declare item => [Row.ofText (requirementText item)]
      | s => (piece none false s).rows) ++
      (if rest.isEmpty then [] else [Row.blank]) ++ requirementRows rest

/-- A statement among others. Members of an extension get its type as `receiver`; a value returned
where `isValue` holds is the value of the lambda around it. -/
def piece (receiver : Option String) (isValue : Bool) : Stmt → Piece
  | .importDecl module _ =>
    .plain .other
      (if platformModules.contains module then [] else [.ofText ("import " ++ module ++ ".*")])
  | .classDecl head isFinal members _ =>
    .plain .other [.ofDocument (.cat [
      .text (accessText head.access ++ (if isFinal then "" else "open ") ++ "class " ++ head.name ++
        genericsText head.generics ++ supertypesText registry head.inherits),
      memberBlock (!members.isEmpty) (assemble (pieces none false members))])]
  | .structDecl head members _ =>
    let others := otherMembers members (pieces none false members)
    let stored := storedDocuments members
    let name := head.name ++ genericsText head.generics
    let tail := .cat [.text (supertypesText registry head.inherits),
      memberBlock (!others.isEmpty) (assemble others)]
    .plain .other [.ofDocument <|
      if stored.isEmpty then .cat [.text (accessText head.access ++ "class " ++ name), tail]
      else .list (.text (accessText head.access ++ "data class " ++ name)) stored tail]
  | .protocolDecl head members _ =>
    .plain .other [.ofDocument (.cat [
      .text (accessText head.access ++ "interface " ++ head.name ++
        supertypesText registry head.inherits),
      memberBlock (!members.isEmpty) (requirementRows members)])]
  | .enumDecl head kind elements members _ =>
    .plain .other [.ofDocument (enumDocument registry head kind elements (rawDocuments elements)
      (!members.isEmpty) (assemble (pieces none false members)))]
  | .extensionDecl extended _ members _ =>
    .plain .other (assemble (pieces (some extended) false members))
  | .companion members _ =>
    .plain .other [.ofDocument (.cat [.text "companion object ",
      .block "\x7b" (assemble (pieces none false members))])]
  | .function head parameters body _ =>
    let tail := match body with
      | some body => [.text " ", .block "\x7b" (assemble (pieces none false body))]
      | none => []
    .plain .other [.ofDocument (.list (.text (functionHead head receiver))
      (parameterDocuments parameters) (.cat (.text (resultText head) :: tail)))]
  | .declare item =>
    .plain .declaration (.ofDocument (variableDocument receiver item) :: accessorRows item)
  | .ifStmt conditions body otherwise isGuard _ =>
    let condition := ifCondition isGuard conditions (conditionItems conditions)
    let after := match otherwise with
      | some otherwise => elseDocuments otherwise
      | none => []
    .plain .other (bindingRows conditions ++ [.ofDocument (.cat
      ([.text "if (", condition, .text ") ", .block "\x7b" (assemble (pieces none false body))] ++
        after))])
  | .switchStmt subject cases target _ =>
    let usesTests := Switch.usesTests subject cases
    let written := exprDocument .value subject
    let opening := if usesTests then [.text "when "] else [.text "when (", written, .text ") "]
    let assigned := match target with
      | some .returned => [.text "return "]
      | some (.assigned lhs) => [exprDocument .value lhs, .text " = "]
      | some (.declared item) => [.text (variableHead item none ++ " = ")]
      | none => []
    .plain .other [.ofDocument (.cat (assigned ++ opening ++
      [.block "\x7b" (caseRows subject written usesTests cases)]))]
  | .forEach item collection body _ =>
    let written := match item with
      | .tuple elements _ =>
        parenthesized (.cat (joinWith ", " ((argumentItems elements).map WrittenArgument.value)))
      | item => exprDocument .value item
    .plain .other [.ofDocument (.cat [.text "for (", written, .text " in ",
      exprDocument .value collection, .text ") ",
      .block "\x7b" (assemble (pieces none false body))])]
  | .whileLoop condition body _ =>
    .plain .other [.ofDocument (.cat [.text "while (", exprDocument .value condition, .text ") ",
      .block "\x7b" (assemble (pieces none false body))])]
  | .doBlock body cleanup _ =>
    .attempt (.block "\x7b" (assemble (pieces none false body)))
      (if cleanup.isEmpty then none
        else some (.block "\x7b" (assemble (pieces none false cleanup))))
  | .catchBlock item body _ =>
    .handler (handlerText item) (.block "\x7b" (assemble (pieces none false body)))
  | .deferBlock _ _ => .plain .other [.ofMarker "defer outside of a do block"]
  | .throwStmt e _ => .plain .other [.ofDocument (.cat [.text "throw ", exprDocument .value e])]
  | .returnStmt (some e) _ =>
    if isValue then .plain (expressionFamily e) [.ofDocument (exprDocument .value e)]
    else .plain .other [.ofDocument (.cat [.text "return ", exprDocument .value e])]
  | .returnStmt none _ => .plain .other [.ofText "return"]
  | .breakStmt _ => .plain .other [.ofText "break"]
  | .continueStmt _ => .plain .other [.ofText "continue"]
  | .assign lhs rhs _ =>
    .plain .assignment
      [.ofDocument (.cat [exprDocument .value lhs, .text " = ", exprDocument .value rhs])]
  | .expression e _ => .plain (expressionFamily e) [.ofDocument (exprDocument .value e)]
  | .comment text _ => .plain .comment ((commentLines text).map Row.ofText)
  | .errorStmt diagnostic _ => .plain .other [.ofMarker diagnostic.message]

def pieces (receiver : Option String) (isValue : Bool) : List Stmt → List Piece
  | [] => []
  | s :: rest => piece receiver (isValue && rest.isEmpty) s :: pieces receiver isValue rest

end

end

/-- The rows of a file; statements outside declarations become the body of `main`. -/
def fileRows (registry : Registry) (file : SourceFile) : List Row :=
  let declarations := assemble (pieces registry none false file.declarations)
  if file.statements.isEmpty then declarations
  else
    declarations ++ (if declarations.isEmpty then [] else [Row.blank]) ++
      [.ofDocument (.cat [.text "fun main(args: Array<String>) ",
        .block "\x7b" (assemble (pieces registry none false file.statements))])]

def emit (registry : Registry) (layout : Layout) (file : SourceFile) : String :=
  Document.renderRows layout (fileRows registry file) 0

end Ferry.Target
