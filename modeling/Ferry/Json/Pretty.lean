/-
  Ferry.Json.Pretty

  JSON text for people: one item or field a line, two blanks a level, fields in the order in which
  they are given. Empty lists and objects stay on their line.
-/
import Ferry.Json.Value

namespace Ferry.Json

def newLine (depth : Nat) : String :=
  "\n" ++ String.ofList (List.replicate (2 * depth) ' ')

def bracketed (opening closing : String) (depth : Nat) (lines : List String) : String :=
  if lines.isEmpty then opening ++ closing
  else
    opening ++ ",".intercalate (lines.map (newLine (depth + 1) ++ ·)) ++ newLine depth ++ closing

mutual

def Value.prettyFrom (depth : Nat) : Value → String
  | .array items => bracketed "[" "]" depth (prettyItems (depth + 1) items)
  | .object fields => bracketed "\x7b" "\x7d" depth (prettyFields (depth + 1) fields)
  | .null => "null"
  | .bool value => if value then "true" else "false"
  | .number value => value.text
  | .string text => escaped text

def prettyItems (depth : Nat) : List Value → List String
  | [] => []
  | item :: rest => item.prettyFrom depth :: prettyItems depth rest

def prettyFields (depth : Nat) : List (String × Value) → List String
  | [] => []
  | (name, value) :: rest =>
    (escaped name ++ ": " ++ value.prettyFrom depth) :: prettyFields depth rest

end

def Value.pretty (value : Value) : String :=
  value.prettyFrom 0

end Ferry.Json
