/-
  Ferry.Pass.EnumCase

  References to cases of enumerations. Each gets the style its enumeration asks for; in a `switch` a
  case that carries values becomes a subtype check of the subject.
-/
import Ferry.Program.View
import Ferry.Registry
import Ferry.Traverse.Transform

namespace Ferry.Pass

def lastComponent (name : String) : String :=
  String.ofList (name.toList.reverse.takeWhile (· ≠ '.')).reverse

/-- The name by which an expression may refer to a type. -/
def typeReference? (e : Expr) : Option String :=
  match e.unparenthesized with
  | .typeName n _ => some (lastComponent n)
  | .name n _ _ _ => some n
  | _ => none

/-- Gives a reference to a known case the style of its enumeration. -/
def styleCase (registry : Registry) : Expr → Expr
  | .member base n isLibrary none info =>
    match typeReference? base with
    | some enum =>
      if registry.isEnumCase enum n then .member base n isLibrary (registry.enumKind? enum) info
      else .member base n isLibrary none info
    | none => .member base n isLibrary none info
  | e => e

def capitalizeEnumCases (registry : Registry) : Transform where
  expr _ e := styleCase registry e

/-- A check that the subject is of the case, for cases that carry values. -/
def checkCase (subject : Expr) : Expr → Expr
  | .member base n isLibrary (some .hasPayload) info =>
    .binary subject "is" (.member base n isLibrary (some .hasPayload) info) { span := info.span }
  | e => e

def checkCases : Stmt → Stmt
  | .switchStmt subject cases target span =>
    .switchStmt subject
      (cases.map fun c => { c with patterns := c.patterns.map (checkCase subject) }) target span
  | s => s

def isChecksForPayloadCases : Transform where
  stmt _ s := [checkCases s]

end Ferry.Pass
