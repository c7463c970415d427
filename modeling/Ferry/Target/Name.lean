/-
  Ferry.Target.Name

  Identifiers of the target language: the two spellings of enumeration cases, and quoting of names
  that are keywords there.
-/
import Ferry.Program.Basic
import Ferry.Text.LetterCase

namespace Ferry.Target

/-- Keywords of the target that are ordinary names in the source. -/
def keywords : List String :=
  ["as", "fun", "in", "interface", "is", "object", "typealias", "typeof", "val", "when"]

/-- The name with its first letter a capital: `lineTo` becomes `LineTo`. -/
def capitalized (name : String) : String :=
  match name.toList with
  | [] => ""
  | c :: cs => String.ofList (Text.capitals c ++ cs)

/-- All letters as capitals, with an underscore where a capital follows a small letter or a
digit. -/
def upperSnakeFrom : Option Char → List Char → List Char
  | _, [] => []
  | previous, c :: cs =>
    let divided := Text.isUppercase c && previous.any fun p => Text.isLowercase p || p.isDigit
    (if divided then ['_'] else []) ++ Text.capitals c ++ upperSnakeFrom (some c) cs

/-- The name in capitals: `northEast` becomes `NORTH_EAST`. -/
def upperSnake (name : String) : String :=
  String.ofList (upperSnakeFrom none name.toList)

/-- The name of an enumeration case: of one that carries values a class, else a constant. -/
def caseName (name : String) : EnumKind → String
  | .hasPayload => capitalized name
  | .payloadFree => upperSnake name

def identifier (name : String) : String :=
  if keywords.contains name then "`" ++ name ++ "`" else name

end Ferry.Target
