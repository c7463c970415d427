/-
  Ferry.Target.Phrase

  The fixed wording of the target language: literals, modifiers and the heads of declarations.
-/
import Ferry.Number.Decimal
import Ferry.Program.View
import Ferry.Registry
import Ferry.Target.Name
import Ferry.Target.TypeName
import Ferry.Text.Lines

namespace Ferry.Target

/-- Text for a string of the target, where a dollar sign would start a reference. -/
def escapeDollars (text : String) : String :=
  String.ofList (text.toList.flatMap fun c => if c = '$' then ['\\', '$'] else [c])

def literalText : Literal → String
  | .int value => toString value
  | .uint value => toString value ++ "u"
  | .double value => Number.Format.double.text value
  | .float value => Number.Format.single.text value ++ "f"
  | .bool value => if value then "true" else "false"
  | .string text => "\"" ++ escapeDollars text ++ "\""
  | .character text => if text = "'" then "'\\''" else "'" ++ text ++ "'"
  | .nil => "null"

/-- A reference by name; the source's `self` has a word of its own. -/
def referenceText (name : String) : String :=
  if name = "self" then "this" else identifier name

/-- The access modifier with a blank after it, where the target has one. -/
def accessText : Option String → String
  | some "private" | some "fileprivate" => "private "
  | some "internal" => "internal "
  | _ => ""

def genericText (parameter : String) : String :=
  let (name, bound) := parameter.toList.span (· ≠ ':')
  match bound with
  | _ :: bound =>
    String.ofList (Text.trim name) ++ " : " ++ typeChars bound
  | [] => String.ofList (Text.trim name)

def genericsText (parameters : List String) : String :=
  if parameters.isEmpty then ""
  else "<" ++ ", ".intercalate (parameters.map genericText) ++ ">"

/-- The types inherited from; a known class is called, other types are only named. -/
def supertypesText (registry : Registry) (inherits : List String) : String :=
  if inherits.isEmpty then ""
  else " : " ++ ", ".intercalate (inherits.map fun name =>
    if registry.isClass name then typeText name ++ "()" else typeText name)

/-- Modules that need no import in the target. -/
def platformModules : List String :=
  ["Foundation", "Swift", "Dispatch", "Darwin", "Glibc", "UIKit", "AppKit", "Cocoa"]

/-- Types whose values an enumeration can stand for. -/
def rawTypes : List String :=
  ["Int", "UInt", "Int8", "Int16", "Int32", "Int64", "String", "Character", "Double", "Float"]

def receiverText : Option String → String
  | some receiver => typeText receiver ++ "."
  | none => ""

def typeSuffix : Option String → String
  | some ty => ": " ++ typeText ty
  | none => ""

def variableHead (item : Variable) (receiver : Option String) : String :=
  let isConstant := item.isLet || (item.isComputed && item.setter.isNone)
  accessText item.access ++ (if isConstant then "val " else "var ") ++
    receiverText (item.receiver <|> receiver) ++ identifier item.name ++ typeSuffix item.ty

/-- A property that a protocol asks for; it can be set only where a setter is asked for. -/
def requirementText (item : Variable) : String :=
  (if item.setter.isSome then "var " else "val ") ++ identifier item.name ++ ": " ++
    (item.ty.map typeText).getD "Any"

/-- Whether a member is an initializer that stays a constructor. -/
def isConstructor (head : FunctionHead) : Bool :=
  match head.kind with
  | .initializer _ => !head.isStatic
  | .function => false

def functionHead (head : FunctionHead) (receiver : Option String) : String :=
  accessText head.access ++
    if isConstructor head then "constructor"
    else
      (if head.isOverride then "override " else "") ++
        (if head.isStatic && head.name == "invoke" then "operator " else "") ++ "fun " ++
        (if head.generics.isEmpty then "" else genericsText head.generics ++ " ") ++
        receiverText (head.receiver <|> receiver) ++ identifier head.name

/-- The result type of a function, where it has to be written. -/
def resultText (head : FunctionHead) : String :=
  match head.returns with
  | some ty => if isConstructor head || isUnit ty then "" else ": " ++ typeText ty
  | none => ""

def parameterText (parameter : Parameter) : String :=
  (if parameter.isVariadic then "vararg " else "") ++ identifier parameter.name ++ ": " ++
    typeText ((Text.stripEnd? "..." parameter.ty).getD parameter.ty)

/-- The opening of a lambda with its parameters; a single `it` needs no mention. -/
def lambdaOpening (parameters : List ClosureParameter) : String :=
  let texts := parameters.map fun p => identifier p.name ++ typeSuffix p.ty
  if texts.isEmpty || texts == ["it"] then "\x7b"
  else "\x7b " ++ ", ".intercalate texts ++ " ->"

/-- An empty collection, with the element types found in the type of the literal. -/
def emptyCollection (function shape : String) (ty : Option String) : String :=
  match ty.bind fun ty =>
      (Text.stripStart? (shape ++ "<") (typeText ty)).bind (Text.stripEnd? ">") with
  | some element => function ++ "<" ++ element ++ ">()"
  | none => function ++ "()"

def commentLines (text : String) : List String :=
  (Text.linesOf text).map fun line =>
    String.ofList (Text.trimEnd ("// ".toList ++ Text.trim line.toList))

end Ferry.Target
