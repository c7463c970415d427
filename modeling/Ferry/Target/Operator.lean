/-
  Ferry.Target.Operator

  Infix operators of the target language: their spelling, how tightly they bind and to which side.
-/
import Ferry.Program.Basic

namespace Ferry.Target

/-- How tightly a form binds, from the loosest on. -/
inductive Precedence where
  /-- A conditional, which is wrapped wherever it is an operand. -/
  | lowest
  | assignment
  | disjunction
  | conjunction
  | equality
  | comparison
  | namedCheck
  | elvis
  | infixCall
  | range
  | additive
  | multiplicative
  | cast
  | prefixed
  | postfixed
  | atom
deriving DecidableEq

namespace Precedence

def rank : Precedence → Nat
  | lowest => 0
  | assignment => 1
  | disjunction => 2
  | conjunction => 3
  | equality => 4
  | comparison => 5
  | namedCheck => 6
  | elvis => 7
  | infixCall => 8
  | range => 9
  | additive => 10
  | multiplicative => 11
  | cast => 12
  | prefixed => 13
  | postfixed => 14
  | atom => 15

end Precedence

def operatorText : String → String
  | "??" => "?:"
  | "..<" => "until"
  | "..." => ".."
  | "&" => "and"
  | "|" => "or"
  | "^" => "xor"
  | "<<" => "shl"
  | ">>" => "shr"
  | "as!" => "as"
  | "&+" => "+"
  | "&-" => "-"
  | "&*" => "*"
  | op => op

/-- How tightly an operator in its target spelling binds. One that the target does not know is read
as a call of an infix function. -/
def operatorPrecedence : String → Precedence
  | "=" | "+=" | "-=" | "*=" | "/=" | "%=" => .assignment
  | "||" => .disjunction
  | "&&" => .conjunction
  | "==" | "!=" | "===" | "!==" => .equality
  | "<" | ">" | "<=" | ">=" => .comparison
  | "is" | "!is" | "in" | "!in" => .namedCheck
  | "?:" => .elvis
  | ".." => .range
  | "+" | "-" => .additive
  | "*" | "/" | "%" => .multiplicative
  | "as" | "as?" => .cast
  | _ => .infixCall

/-- Whether an operator in its target spelling groups to the right. -/
def isRightAssociative (op : String) : Bool :=
  ["?:", "=", "+=", "-=", "*=", "/=", "%="].contains op

/-- Whether an operator in its target spelling stands without blanks around it. -/
def isTight (op : String) : Bool :=
  op == ".."

/-- How tightly the outermost form of an expression binds once written. -/
def precedenceOf : Expr → Precedence
  | .binary _ op _ _ => operatorPrecedence (operatorText op)
  | .ternary .. => .lowest
  | .prefixOp .. => .prefixed
  | .literal (.int value) _ => if value < 0 then .prefixed else .atom
  | .literal (.double value) _ => if value.isNegative then .prefixed else .atom
  | .literal (.float value) _ => if value.isNegative then .prefixed else .atom
  | .optional inner _ => precedenceOf inner
  | .member .. | .call .. | .subscript .. | .postfixOp .. | .force .. => .postfixed
  | _ => .atom

/-- Whether an operand that binds like `own` needs parentheses below a form that binds like
`parent`; `tieWraps` says whether equal strength asks for them on this side. -/
def needsParentheses (own parent : Precedence) (tieWraps : Bool) : Bool :=
  own.rank < parent.rank ||
    (own.rank == parent.rank && tieWraps && own.rank < Precedence.postfixed.rank)

end Ferry.Target
