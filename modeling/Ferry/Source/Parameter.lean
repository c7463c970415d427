/-
  Ferry.Source.Parameter

  Parameters as they are written in a declaration: `label name: Type = default`. A parameter without
  a second word is named by its label, `_` is no label, and `Type...` takes any number of arguments.
  Attributes and `inout` are no part of the type.
-/
import Ferry.Text.Affix
import Ferry.Text.Blank
import Ferry.Text.Nesting

namespace Ferry.Source

/-- What a call needs to know about one declared parameter. -/
structure ParameterInfo where
  /-- The label written at a call; none for `_`. -/
  label : Option String
  name : String
  ty : String
  hasDefault : Bool := false
  isVariadic : Bool := false
deriving DecidableEq, Repr

def ParameterInfo.isClosure (parameter : ParameterInfo) : Bool :=
  Text.contains "->" parameter.ty

/-- A label as written; empty text and `_` stand for none. -/
def writtenLabel (text : String) : Option String :=
  if text = "" ∨ text = "_" then none else some text

/-! ## One parameter -/

/-- Whether a `=` between these characters is part of a longer operator. -/
def isComparison (before after : Char) : Bool :=
  before == '=' || before == '!' || before == '<' || before == '>' || after == '='

/-- The text before the `=` that starts a default value, from a nesting depth and preceding
character on; none without a default. -/
def beforeDefault? : Int → Char → List Char → Option (List Char)
  | _, _, [] => none
  | depth, previous, c :: cs =>
    if c = '=' ∧ depth = 0 ∧ isComparison previous (cs.headD ' ') = false then some []
    else (beforeDefault? (depth + Text.nestingStep previous c) c cs).map (c :: ·)

/-- Whether a word in front of a type only says how the argument is passed. -/
def isPassingWord (word : List Char) : Bool :=
  word.head? == some '@' || word == "inout".toList

/-- A type without attributes, its words one blank apart. -/
def plainType (cs : List Char) : List Char :=
  [' '].intercalate ((Text.words cs).filter (!isPassingWord ·))

/-- The label and the name in front of the colon. -/
def parameterNames? (cs : List Char) : Option (String × String) :=
  match Text.words cs with
  | [] => none
  | [only] => some (String.ofList only, String.ofList only)
  | label :: name :: _ => some (String.ofList label, String.ofList name)

/-- A parameter as written; none without a colon, a name or a type. -/
def ParameterInfo.ofText? (text : String) : Option ParameterInfo :=
  match Text.splitTopLevel ':' text.toList with
  | [] | [_] => none
  | first :: _ :: _ => do
    let tail := Text.trim (text.toList.drop (first.length + 1))
    let (label, name) ← parameterNames? first
    let declared := beforeDefault? 0 ' ' tail
    let whole := plainType (declared.getD tail)
    let element := Text.dropEnd? "...".toList whole
    let ty := (element.map Text.trim).getD whole
    if ty.isEmpty then none
    else
      some
        { label := if label = "_" then none else some label
          name
          ty := String.ofList ty
          hasDefault := declared.isSome
          isVariadic := element.isSome }

/-! ## Parameter clauses -/

/-- What follows the first `(` outside angle brackets. -/
def afterOpening? : Int → List Char → Option (List Char)
  | _, [] => none
  | angles, c :: cs =>
    if c = '(' ∧ angles = 0 then some cs
    else afterOpening? (angles + if c = '<' then 1 else if c = '>' then -1 else 0) cs

/-- The text up to the `)` that closes the innermost of `depth + 1` open brackets. -/
def beforeClosing? : Nat → List Char → Option (List Char)
  | _, [] => none
  | depth, c :: cs =>
    if c = '(' then (beforeClosing? (depth + 1) cs).map (c :: ·)
    else if c = ')' then
      match depth with
      | 0 => some []
      | depth + 1 => (beforeClosing? depth cs).map (c :: ·)
    else (beforeClosing? depth cs).map (c :: ·)

/-- The parameters of a declaration such as `func f<T>(_ x: T, label: Int = 0) -> T`; none if one of
them cannot be read. -/
def parameterClause? (declaration : String) : Option (List ParameterInfo) := do
  let inner ← beforeClosing? 0 (← afterOpening? 0 declaration.toList)
  let clause := Text.trim inner
  if clause.isEmpty then some []
  else (Text.splitTopLevel ',' clause).mapM fun part => ParameterInfo.ofText? (String.ofList part)

end Ferry.Source
