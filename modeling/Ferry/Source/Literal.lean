/-
  Ferry.Source.Literal

  Number literals as written: digits may be grouped by `_`, and integers may be hexadecimal, octal
  or binary. What type a literal takes is decided by the type resolved for its place.
-/
import Ferry.Number.Decimal
import Ferry.Program.Basic

namespace Ferry.Source

/-- The digits of a literal without their grouping. -/
def ungrouped (text : String) : List Char :=
  text.toList.filter (· != '_')

def digitValue? (c : Char) : Option Nat :=
  if '0' ≤ c ∧ c ≤ '9' then some (c.toNat - '0'.toNat)
  else if 'a' ≤ c ∧ c ≤ 'z' then some (c.toNat - 'a'.toNat + 10)
  else if 'A' ≤ c ∧ c ≤ 'Z' then some (c.toNat - 'A'.toNat + 10)
  else none

/-- The number that follows `value` when digits to a base are read on. -/
def readDigits? (base : Nat) (value : Nat) : List Char → Option Nat
  | [] => some value
  | c :: cs => do
    let digit ← digitValue? c
    if digit < base then readDigits? base (value * base + digit) cs else none

/-- A number in at least one digit to a base, a `+` before it allowed. -/
def readNumeral? (base : Nat) (cs : List Char) : Option Nat :=
  match cs with
  | [] | ['+'] => none
  | '+' :: digits => readDigits? base 0 digits
  | digits => readDigits? base 0 digits

/-- The value of an integer literal of at most 64 bits. -/
def integerValue? (text : String) : Option Nat := do
  let value ← match ungrouped text with
    | '0' :: 'x' :: digits => readNumeral? 16 digits
    | '0' :: 'o' :: digits => readNumeral? 8 digits
    | '0' :: 'b' :: digits => readNumeral? 2 digits
    | digits => readNumeral? 10 digits
  if value < Nat.pow 2 64 then some value else none

def integerLiteral (ty : Option String) (value : Nat) : Literal :=
  match ty with
  | some "Double" => .double (Number.Format.double.ofNat value)
  | some "Float" => .float (Number.Format.single.ofNat value)
  | _ =>
    if ty.any (Text.startsWith "UInt") || Nat.pow 2 63 ≤ value then .uint value else .int value

def floatLiteral (ty : Option String) (value : Number.Binary) : Literal :=
  if ty = some "Float" then .float (Number.Format.single.convert value) else .double value

def floatValue? (text : String) : Option Number.Binary :=
  Number.Format.double.read? (String.ofList (ungrouped text))

def stringLiteral (ty : Option String) (text : String) : Literal :=
  if ty = some "Character" then .character text else .string text

end Ferry.Source
