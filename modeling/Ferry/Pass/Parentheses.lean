/-
  Ferry.Pass.Parentheses

  Dropping parentheses that the target language does not need: around expressions that bind tightly
  anyway, and around whole conditions, subjects, returned values and arguments.
-/
import Ferry.Program.View
import Ferry.Traverse.Transform

namespace Ferry.Pass

/-- Whether an expression binds at least as tightly as any operator around it. -/
def isAtomic : Expr → Bool
  | .paren .. | .literal .. | .name .. | .typeName .. | .member .. | .call .. | .subscript ..
  | .array .. | .dictionary .. | .tuple .. | .optional .. | .force .. | .interpolation ..
  | .error .. => true
  | _ => false

def unwrapExpr : Expr → Expr
  | .paren inner info => if isAtomic inner then inner else .paren inner info
  | .tuple elements info =>
    .tuple (elements.map fun argument => ⟨argument.label, argument.value.unparenthesized⟩) info
  | .shuffle slots info => .shuffle (slots.map (Slot.mapValues Expr.unparenthesized)) info
  | e => e

def unwrapCondition : Condition → Condition
  | .test e => .test e.unparenthesized
  | .binding item => .binding item

def unwrapStmt : Stmt → Stmt
  | .ifStmt conditions body otherwise isGuard span =>
    .ifStmt (conditions.map unwrapCondition) body otherwise isGuard span
  | .whileLoop condition body span => .whileLoop condition.unparenthesized body span
  | .switchStmt subject cases target span =>
    .switchStmt subject.unparenthesized cases target span
  | .returnStmt value span => .returnStmt (value.map Expr.unparenthesized) span
  | s => s

def removeParentheses : Transform where
  expr _ e := unwrapExpr e
  stmt _ s := [unwrapStmt s]

end Ferry.Pass
