/-
  Ferry.Pass.Guard

  Guards and early returns. A guard is written as a negated `if`, so a guard on a negation becomes a
  plain one; and a test for `nil` whose only effect is to return becomes an expression.
-/
import Ferry.Program.View
import Ferry.Traverse.Transform

namespace Ferry.Pass

def withoutNegation : Expr → Expr × Bool
  | .prefixOp op operand info =>
    if op = "!" then (operand, true) else (.prefixOp op operand info, false)
  | .binary lhs op rhs info =>
    if op = "!=" then (.binary lhs "==" rhs info, true) else (.binary lhs op rhs info, false)
  | e => (e, false)

/-- Cancels the negation of a guard against the one of its only condition. -/
def cancelNegation : Stmt → Stmt
  | .ifStmt [.test e] body otherwise true span =>
    let (condition, isNegated) := withoutNegation e.unparenthesized
    .ifStmt [.test condition] body otherwise (!isNegated) span
  | s => s

def doubleNegativesInGuards : Transform where
  stmt _ s := [cancelNegation s]

/-- The side of a comparison whose other side is `nil`. -/
def comparedWithNil? (condition : Expr) : Option Expr :=
  match condition.unparenthesized with
  | .binary lhs op rhs _ =>
    if op = "==" then
      match lhs.isNil, rhs.isNil with
      | false, true => some lhs
      | true, false => some rhs
      | _, _ => none
    else none
  | _ => none

/-- Turns a return for `nil` into a choice between the value and returning. -/
def returnForNil : Stmt → Stmt
  | .ifStmt [.test condition] [.returnStmt none inner] none false span =>
    match comparedWithNil? condition with
    | some checked =>
      .expression (.binary checked "??" (.code "return" {}) { span }) span
    | none => .ifStmt [.test condition] [.returnStmt none inner] none false span
  | s => s

def returnIfNil : Transform where
  stmt _ s := [returnForNil s]

end Ferry.Pass
