/-
  Ferry.Pass.ClosureParameter

  Names for the parameters that a closure leaves anonymous, `$0` and `$1`. A closure that uses only
  the first takes the target's own `it`; one that uses more gets parameters `arg0`, `arg1` and so
  on.
-/
import Ferry.Number.Decimal
import Ferry.Traverse.Survey
import Ferry.Traverse.Transform

namespace Ferry.Pass

def anonymousIndex? (name : String) : Option Nat :=
  match name.toList with
  | '$' :: rest =>
    let digits := match rest with
      | '+' :: digits => digits
      | digits => digits
    if digits.isEmpty || !digits.all Char.isDigit then none
    else
      let index := Number.digitsValue digits
      if index < 18446744073709551616 then some index else none
  | _ => none

def isClosure : Expr → Bool
  | .closure .. => true
  | _ => false

/-- The anonymous parameters used directly in a body, not in closures inside it. -/
def anonymousSurvey : Survey Nat where
  enters e := !isClosure e
  expr
    | .name n _ _ _ => (anonymousIndex? n).toList
    | _ => []
  paired := true

def parameterName (isOnly : Bool) (index : Nat) : String :=
  if isOnly then "it" else "arg" ++ toString index

def renameAnonymous (isOnly : Bool) : Expr → Expr
  | .name n isLibrary isImplicit info =>
    match anonymousIndex? n with
    | some index => .name (parameterName isOnly index) isLibrary isImplicit info
    | none => .name n isLibrary isImplicit info
  | e => e

/-- Renames anonymous parameters, not in closures inside. -/
def anonymousRenaming (isOnly : Bool) : Transform where
  enters e := !isClosure e
  expr _ e := renameAnonymous isOnly e

/-- Names the parameters of a closure that has none of its own. -/
def nameParameters : Expr → Expr
  | .closure [] body info =>
    match (anonymousSurvey.ofStmts body).max? with
    | none => .closure [] body info
    | some highest =>
      let parameters := if highest = 0 then []
        else (List.range (highest + 1)).map fun index => { name := parameterName false index }
      .closure parameters ((anonymousRenaming (highest == 0)).onStmts none body) info
  | e => e

def anonymousParameters : Transform where
  expr _ e := nameParameters e

end Ferry.Pass
