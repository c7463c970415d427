/-
  Ferry.Source.Binding

  Which arguments of a call go to which parameter. Arguments are bound in the order of the
  parameters: a parameter takes the next argument if the label fits, a variadic one also those
  without a label after it, and one with a default may take none. A trailing closure goes to the
  first parameter of function type that is left once the other arguments are used up, or else to the
  last parameter.
-/
import Ferry.Source.Parameter

namespace Ferry.Source

/-- For each parameter, the indices of its arguments. -/
abbrev Binding := List (List Nat)

/-- Which parameters a trailing closure may go to. -/
inductive Direction where
  /-- The first one of function type after all other arguments. -/
  | forward
  | backward
deriving DecidableEq, Repr

/-- The arguments not yet bound: the index of the next one, the labels from there on, and the
trailing closure. -/
structure Remaining where
  next : Nat
  labels : List (Option String)
  trailing : Option Nat

namespace Remaining

/-- All arguments of a call; a trailing closure comes after the others. -/
def all (labels : List (Option String)) (hasTrailing : Bool) : Remaining where
  next := 0
  labels := labels
  trailing := if hasTrailing then some labels.length else none

def isDone (remaining : Remaining) : Bool :=
  remaining.labels.isEmpty && remaining.trailing.isNone

def advance (remaining : Remaining) (count : Nat) : Remaining :=
  { remaining with
    next := remaining.next + count
    labels := remaining.labels.drop count }

def withoutTrailing (remaining : Remaining) : Remaining :=
  { remaining with trailing := none }

/-- Whether the next argument has the label of the parameter. -/
def fits (remaining : Remaining) (parameter : ParameterInfo) : Bool :=
  remaining.labels.head? == some parameter.label

/-- How many arguments a variadic parameter takes: one that fits and those without a label after
it. -/
def variadicCount (remaining : Remaining) (parameter : ParameterInfo) : Nat :=
  if remaining.fits parameter then
    1 + ((remaining.labels.drop 1).takeWhile Option.isNone).length
  else 0

/-- The trailing closure, if this parameter is where it goes. -/
def trailingFor (remaining : Remaining) (direction : Direction) (parameter : ParameterInfo) :
    Option Nat :=
  if direction = .forward && remaining.labels.isEmpty && parameter.isClosure then
    remaining.trailing
  else none

/-- The arguments one parameter takes and what is left; none if it needs one and no argument
fits. -/
def bind (remaining : Remaining) (direction : Direction) (parameter : ParameterInfo)
    (isLast : Bool) : Option (List Nat × Remaining) :=
  match (if direction = .backward && isLast then remaining.trailing else none) with
  | some closure => some ([closure], remaining.withoutTrailing)
  | none =>
    if parameter.isVariadic then
      let count := remaining.variadicCount parameter
      some (List.range' remaining.next count, remaining.advance count)
    else if remaining.fits parameter then some ([remaining.next], remaining.advance 1)
    else
      match remaining.trailingFor direction parameter with
      | some closure => some ([closure], remaining.withoutTrailing)
      | none => if parameter.hasDefault then some ([], remaining) else none

end Remaining

/-- Binds the remaining arguments to the parameters in order, if every one finds its place. -/
def bindInOrder (direction : Direction) : List ParameterInfo → Remaining → Option Binding
  | [], remaining => if remaining.isDone then some [] else none
  | parameter :: parameters, remaining => do
    let (bound, rest) ← remaining.bind direction parameter parameters.isEmpty
    return bound :: (← bindInOrder direction parameters rest)

/-- Binds the arguments of a call: their labels and whether a trailing closure follows them. -/
def bindArguments (parameters : List ParameterInfo) (labels : List (Option String))
    (hasTrailing : Bool) : Option Binding :=
  bindInOrder .forward parameters (.all labels hasTrailing) <|>
    bindInOrder .backward parameters (.all labels hasTrailing)

/-- Whether every parameter takes exactly the argument at its own position. -/
def isIdentity (parameters : List ParameterInfo) (binding : Binding) (supplied : Nat) : Bool :=
  binding.length == supplied && parameters.all (!·.isVariadic) &&
    binding == (List.range binding.length).map fun i => [i]

end Ferry.Source
