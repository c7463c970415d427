/-
  Ferry.Json.Value

  JSON values and their compact text. The fields of an object are written in the order of their
  names, and of two fields with one name only the later counts.
-/
import Ferry.Number.Decimal

namespace Ferry.Json

/-- A number: whole where its text is a whole number of machine size, else the nearest double. -/
inductive Numeral where
  | whole (value : Int)
  | real (value : Number.Binary)

inductive Value where
  | null
  | bool (value : Bool)
  | number (value : Numeral)
  | string (text : String)
  | array (items : List Value)
  | object (fields : List (String × Value))
deriving Inhabited

/-- The four hexadecimal digits of a control character. -/
def hexDigits (n : Nat) : String :=
  let digits := Nat.toDigits 16 n
  String.ofList (List.replicate (4 - digits.length) '0' ++ digits)

/-- A character inside a JSON string. -/
def escapedChar (c : Char) : String :=
  if c = '"' then "\\\""
  else if c = '\\' then "\\\\"
  else if c = '\n' then "\\n"
  else if c = '\r' then "\\r"
  else if c = '\t' then "\\t"
  else if c = Char.ofNat 8 then "\\b"
  else if c = Char.ofNat 12 then "\\f"
  else if c.toNat < 32 then "\\u" ++ hexDigits c.toNat
  else c.toString

def escaped (text : String) : String :=
  "\"" ++ String.join (text.toList.map escapedChar) ++ "\""

/-- Numbers are written out from `0.00001` on, and positive exponents have a plus. -/
def numeralStyle : Number.Style := ⟨-4, true⟩

def Numeral.text : Numeral → String
  | whole value => toString value
  | real value => Number.Format.double.textIn numeralStyle value

/-- Puts a field in its place by name, replacing an earlier one. -/
def insertField (name : String) (text : String) : List (String × String) → List (String × String)
  | [] => [(name, text)]
  | (other, value) :: rest =>
    if name = other then (name, text) :: rest
    else if name < other then (name, text) :: (other, value) :: rest
    else (other, value) :: insertField name text rest

mutual

def Value.compress : Value → String
  | .null => "null"
  | .bool value => if value then "true" else "false"
  | .number value => value.text
  | .string text => escaped text
  | .array items => "[" ++ ",".intercalate (compressItems items) ++ "]"
  | .object fields =>
    let fields := (compressFields fields).foldl (fun sorted (name, text) =>
      insertField name text sorted) []
    "\x7b" ++ ",".intercalate (fields.map fun (name, text) => escaped name ++ ":" ++ text) ++ "\x7d"

def compressItems : List Value → List String
  | [] => []
  | item :: rest => item.compress :: compressItems rest

/-- The fields of an object with their values' texts. -/
def compressFields : List (String × Value) → List (String × String)
  | [] => []
  | (name, value) :: rest => (name, value.compress) :: compressFields rest

end

namespace Value

def nat (n : Nat) : Value := .number (.whole n)

def strings (texts : List String) : Value := .array (texts.map string)

def orNull {α : Type} (f : α → Value) (value : Option α) : Value :=
  value.elim .null f

def text? (text : Option String) : Value := orNull string text

/-- An object of the fields that are there. -/
def record (fields : List (String × Option Value)) : Value :=
  .object (fields.filterMap fun (name, value) => value.map (name, ·))

/-- A field that is only there when it holds. -/
def flag (b : Bool) : Option Value := if b then some (.bool true) else none

/-- The value of the last field with a name. -/
def field? (value : Value) (name : String) : Option Value :=
  match value with
  | object fields => fields.reverse.lookup name
  | _ => none

def asText? : Value → Option String
  | string text => some text
  | _ => none

def asBool? : Value → Option Bool
  | bool value => some value
  | _ => none

def asNat? : Value → Option Nat
  | number (.whole value) => if value < 0 then none else some value.toNat
  | _ => none

def asItems? : Value → Option (List Value)
  | array items => some items
  | _ => none

def textField? (value : Value) (name : String) : Option String :=
  (value.field? name).bind asText?

/-- The text of a field, else none at all. -/
def textField (value : Value) (name : String) : String :=
  (value.textField? name).getD ""

def boolField (value : Value) (name : String) : Bool :=
  ((value.field? name).bind asBool?).getD false

def natField? (value : Value) (name : String) : Option Nat :=
  (value.field? name).bind asNat?

/-- The items of a field, none without a list. -/
def itemsField (value : Value) (name : String) : List Value :=
  ((value.field? name).bind asItems?).getD []

def textsField (value : Value) (name : String) : List String :=
  (value.itemsField name).filterMap asText?

/-- An item of a list by its position, else `null`. -/
def item (value : Value) (index : Nat) : Value :=
  ((value.asItems?.getD [])[index]?).getD .null

end Value

end Ferry.Json
