/-
  Ferry.Program.Switch

  How a case of a `switch` relates to its subject. A case that is a full test can stand without the
  subject; a subtype check of the subject itself can be written against it. Expressions are taken to
  be the subject when they read alike.
-/
import Ferry.Program.Text

namespace Ferry

namespace Switch

/-- Whether an expression reads like the subject, parentheses aside. -/
def mentions (subject e : Expr) : Bool :=
  e.unparenthesized.text == subject.unparenthesized.text

/-- Whether a case is a subtype check of the subject. -/
def isSubjectCheck (subject e : Expr) : Bool :=
  match e.unparenthesized with
  | .binary lhs "is" _ _ => mentions subject lhs
  | _ => false

/-- Operators that make a case a full test whatever they join. -/
def testOperators : List String := ["&&", "||", "<", ">", "<=", ">=", "!="]

/-- Whether a case is a full test rather than a value to compare with the subject. -/
def isTest (subject e : Expr) : Bool :=
  match e.unparenthesized with
  | .binary lhs op _ _ =>
    testOperators.contains op || ((op == "is" || op == "==") && mentions subject lhs)
  | .prefixOp op _ _ => op == "!"
  | _ => false

/-- Whether some case is a test that cannot be written against the subject. -/
def usesTests (subject : Expr) (cases : List SwitchCase) : Bool :=
  cases.any fun c => c.patterns.any fun e => isTest subject e && !isSubjectCheck subject e

def readsMember (subject e : Expr) : Bool :=
  match e.unparenthesized with
  | .member base _ _ _ _ => mentions subject base
  | _ => false

end Switch

end Ferry
