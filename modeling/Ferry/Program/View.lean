/-
  Ferry.Program.View

  Small questions about expressions and statements: the type and place they carry, what stands
  inside parentheses, and the key under which a call finds its function.
-/
import Ferry.Program.Basic

namespace Ferry

namespace Expr

/-- The resolved type, which an error never has. -/
def ty : Expr → Option String
  | literal _ info | array _ info | dictionary _ _ info | name _ _ _ info | member _ _ _ _ info
  | call _ _ _ _ info | closure _ _ info | subscript _ _ info | prefixOp _ _ info
  | postfixOp _ _ info | binary _ _ _ info | ternary _ _ _ info | typeName _ info | tuple _ info
  | shuffle _ info | paren _ info | optional _ info | force _ info | interpolation _ info
  | code _ info => info.ty
  | error _ _ => none

def span : Expr → Option Span
  | literal _ info | array _ info | dictionary _ _ info | name _ _ _ info | member _ _ _ _ info
  | call _ _ _ _ info | closure _ _ info | subscript _ _ info | prefixOp _ _ info
  | postfixOp _ _ info | binary _ _ _ info | ternary _ _ _ info | typeName _ info | tuple _ info
  | shuffle _ info | paren _ info | optional _ info | force _ info | interpolation _ info
  | code _ info => info.span
  | error _ span => span

/-- The expression inside all parentheses around it. -/
def unparenthesized : Expr → Expr
  | paren inner _ => inner.unparenthesized
  | e => e

/-- The name of a plain reference, parentheses aside. -/
def referencedName? (e : Expr) : Option String :=
  match e.unparenthesized with
  | name n _ _ _ => some n
  | _ => none

/-- Whether the expression is the literal `nil`, parentheses aside. -/
def isNil (e : Expr) : Bool :=
  match e.unparenthesized with
  | literal .nil _ => true
  | _ => false

def isError : Expr → Bool
  | error _ _ => true
  | _ => false

end Expr

namespace Slot

def label : Slot → Option String
  | absent label | present label _ | variadic label _ => label

def values : Slot → List Expr
  | absent _ => []
  | present _ value => [value]
  | variadic _ values => values

def relabel (label : Option String) : Slot → Slot
  | absent _ => absent label
  | present _ value => present label value
  | variadic _ values => variadic label values

def mapValues (f : Expr → Expr) : Slot → Slot
  | absent label => absent label
  | present label value => present label (f value)
  | variadic label values => variadic label (values.map f)

end Slot

namespace Variable

def simple (name : String) (ty : Option String) (initializer : Option Expr) (isLet : Bool) :
    Variable :=
  { name, ty, initializer, isLet, isStatic := false, getter := none, setter := none,
    access := none, receiver := none, span := none }

def isComputed (item : Variable) : Bool :=
  item.getter.isSome

end Variable

namespace Stmt

/-- Whether the statement is a call standing alone. -/
def isCall : Stmt → Bool
  | expression (.call ..) _ => true
  | _ => false

/-- Whether the statement declares a static function or variable. -/
def isStatic : Stmt → Bool
  | function head _ _ _ => head.isStatic
  | declare item => item.isStatic
  | _ => false

end Stmt

def SwitchCase.isDefault (c : SwitchCase) : Bool :=
  c.patterns.isEmpty

/-! ## Signature keys -/

/-- The key of a function: its name and the labels of its parameters, `name(label:_:)`. -/
def signatureKey (name : String) (labels : List (Option String)) : String :=
  name ++ "(" ++ String.join (labels.map fun label => label.getD "_" ++ ":") ++ ")"

namespace Expr

/-- The last name of a callee, parentheses aside. -/
def calleeName? (callee : Expr) : Option String :=
  match callee.unparenthesized with
  | name n _ _ _ => some n
  | typeName n _ => some n
  | member _ n _ _ _ => some n
  | _ => none

/-- The labels of an argument list, one per slot of a shuffle. -/
def argumentLabels : (arguments : Expr) → List (Option String)
  | tuple elements _ => elements.map Argument.label
  | shuffle slots _ => slots.map Slot.label
  | _ => []

/-- The key of the function that a call with this callee and these arguments means. -/
def callKey? (callee arguments : Expr) : Option String :=
  callee.calleeName?.map fun name => signatureKey name arguments.argumentLabels

end Expr

end Ferry
