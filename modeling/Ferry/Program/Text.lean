/-
  Ferry.Program.Text

  Expressions in a concise readable form, for messages and dumps. Long literals and collections are
  cut short, and bodies of closures are left out, so that two expressions may read alike.
-/
import Ferry.Program.View
import Ferry.Number.Decimal

namespace Ferry

/-- A text between quotes; one of more than fifty characters is cut to its first 47. -/
def abbreviated (text : String) : String :=
  if 50 < text.length then "\"" ++ String.ofList (text.toList.take 47) ++ "...\""
  else "\"" ++ text ++ "\""

/-- A literal as it reads in the source language. -/
def Literal.text : Literal → String
  | int value => toString value
  | uint value => toString value
  | double value => Number.Format.double.text value
  | float value => Number.Format.single.text value
  | bool value => if value then "true" else "false"
  | string text => abbreviated text
  | character text => abbreviated text
  | nil => "nil"

def labeled (label : Option String) (value : String) : String :=
  match label with
  | some label => label ++ ": " ++ value
  | none => value

def commaSeparated (texts : List String) : String :=
  ", ".intercalate texts

/-- What stands for an error node in a readable form. -/
def errorText (diagnostic : Diagnostic) : String :=
  "<<error: " ++ diagnostic.message ++ ">>"

mutual

def Expr.text : Expr → String
  | .literal value _ => value.text
  | .array elements _ =>
    if elements.length ≤ 3 then "[" ++ commaSeparated (texts elements) ++ "]"
    else s!"[...{elements.length} items...]"
  | .dictionary keys values _ =>
    if keys.isEmpty then "[:]"
    else if keys.length ≤ 2 then
      "[" ++ commaSeparated
        (List.zipWith (fun key value => key ++ ": " ++ value) (texts keys) (texts values)) ++ "]"
    else s!"[...{keys.length} entries...]"
  | .name n _ _ _ => n
  | .member base n _ _ _ => base.text ++ "." ++ n
  | .call callee arguments _ _ _ => callee.text ++ arguments.text
  | .closure parameters _ _ =>
    if parameters.isEmpty then "\x7b ... \x7d"
    else "\x7b " ++ commaSeparated (parameters.map ClosureParameter.name) ++ " in ... \x7d"
  | .subscript base index _ => base.text ++ "[" ++ index.text ++ "]"
  | .prefixOp op operand _ => op ++ operand.text
  | .postfixOp op operand _ => operand.text ++ op
  | .binary lhs op rhs _ => lhs.text ++ " " ++ op ++ " " ++ rhs.text
  | .ternary condition yes no _ => condition.text ++ " ? " ++ yes.text ++ " : " ++ no.text
  | .typeName n _ => n
  | .tuple elements _ => "(" ++ commaSeparated (argumentTexts elements) ++ ")"
  | .shuffle slots _ => "(" ++ commaSeparated (slotTexts slots) ++ ")"
  | .paren inner _ => "(" ++ inner.text ++ ")"
  | .optional inner _ => inner.text ++ "?"
  | .force inner _ => inner.text ++ "!"
  | .interpolation _ _ => "\"\\(...)\""
  | .code text _ => text
  | .error diagnostic _ => errorText diagnostic

def texts : List Expr → List String
  | [] => []
  | e :: es => e.text :: texts es

def argumentTexts : List Argument → List String
  | [] => []
  | ⟨label, value⟩ :: rest => labeled label value.text :: argumentTexts rest

def slotTexts : List Slot → List String
  | [] => []
  | .absent label :: rest => labeled label "<default>" :: slotTexts rest
  | .present label value :: rest => labeled label value.text :: slotTexts rest
  | .variadic label values :: rest =>
    labeled label (commaSeparated (texts values)) :: slotTexts rest

end

end Ferry
