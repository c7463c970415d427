/-
  Ferry.Program.Shuffle

  Argument shuffles from their parts: one label and one index per parameter, and the supplied
  expressions in order. An index says how many of them its slot takes.
-/
import Ferry.Program.View

namespace Ferry

inductive ShuffleIndex where
  | absent
  | present
  | variadic (count : Nat)
deriving DecidableEq

namespace ShuffleIndex

/-- How many expressions a slot with this index takes. -/
def width : ShuffleIndex → Nat
  | absent => 0
  | present => 1
  | variadic count => count

end ShuffleIndex

inductive ShuffleError where
  | lengthMismatch (labels indices : Nat)
  | expressionCount (expected actual : Nat)
  /-- The slots together take more expressions than can be counted. -/
  | tooWide
deriving DecidableEq

def ShuffleError.kind : ShuffleError → String
  | lengthMismatch .. => "LengthMismatch"
  | expressionCount .. => "ExpressionCount"
  | tooWide => "TooWide"

def ShuffleError.message : ShuffleError → String
  | lengthMismatch labels indices => s!"tuple shuffle has {labels} labels but {indices} indices"
  | expressionCount expected actual =>
    s!"tuple shuffle slots consume {expected} expressions but {actual} were supplied"
  | tooWide => "tuple shuffle slots consume too many expressions"

namespace Shuffle

/-- Expressions are counted below this number. -/
def countLimit : Nat := 18446744073709551616

def indexOf : Slot → ShuffleIndex
  | .absent _ => .absent
  | .present _ _ => .present
  | .variadic _ values => .variadic values.length

def expressions (slots : List Slot) : List Expr :=
  (slots.map Slot.values).flatten

/-- Deals expressions out to slots; each takes as many as its index says. -/
def deal : List (Option String) → List ShuffleIndex → List Expr → List Slot
  | label :: labels, .absent :: indices, values => .absent label :: deal labels indices values
  | label :: labels, .present :: indices, value :: values =>
    .present label value :: deal labels indices values
  | label :: labels, .variadic count :: indices, values =>
    .variadic label (values.take count) :: deal labels indices (values.drop count)
  | _, _, _ => []

/-- Builds the slots of a shuffle; labels and indices must pair up, and the slots together must take
every expression. -/
def ofParts (labels : List (Option String)) (indices : List ShuffleIndex) (values : List Expr) :
    Except ShuffleError (List Slot) :=
  if labels.length ≠ indices.length then
    .error (.lengthMismatch labels.length indices.length)
  else
    let expected := (indices.map ShuffleIndex.width).foldr (· + ·) 0
    if expected = values.length then .ok (deal labels indices values)
    else if countLimit ≤ expected then .error .tooWide
    else .error (.expressionCount expected values.length)

/-- The slots under other labels, one for each. -/
def relabel (labels : List (Option String)) (slots : List Slot) : Except ShuffleError (List Slot) :=
  if labels.length ≠ slots.length then .error (.lengthMismatch labels.length slots.length)
  else .ok (List.zipWith Slot.relabel labels slots)

end Shuffle

end Ferry
