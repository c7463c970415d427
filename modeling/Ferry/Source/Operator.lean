/-
  Ferry.Source.Operator

  Precedence of the operators of the source language. Every operator belongs to a group; groups are
  ordered from the loosest to the tightest, and operators of one group nest to one side.
-/
namespace Ferry.Source

/-- Which side operators of one group nest to. -/
inductive Associativity where
  | left
  | right
deriving DecidableEq, Repr

/-- Precedence groups, the loosest first. `standard` is the group of an operator that is not built
in. -/
inductive OperatorGroup where
  | assignment
  | ternary
  | standard
  | logicalDisjunction
  | logicalConjunction
  | comparison
  | nilCoalescing
  | casting
  | rangeFormation
  | addition
  | multiplication
  | bitwiseShift
deriving DecidableEq, Repr

namespace OperatorGroup

def rank : OperatorGroup → Nat
  | assignment => 0
  | ternary => 1
  | standard => 2
  | logicalDisjunction => 3
  | logicalConjunction => 4
  | comparison => 5
  | nilCoalescing => 6
  | casting => 7
  | rangeFormation => 8
  | addition => 9
  | multiplication => 10
  | bitwiseShift => 11

def associativity : OperatorGroup → Associativity
  | assignment | ternary | nilCoalescing => .right
  | _ => .left

def operators : List (OperatorGroup × List String) :=
  [(bitwiseShift, ["<<", ">>", "&<<", "&>>"]),
   (multiplication, ["*", "/", "%", "&", "&*"]),
   (addition, ["+", "-", "|", "^", "&+", "&-"]),
   (rangeFormation, ["..<", "..."]),
   (casting, ["is", "as", "as?", "as!"]),
   (nilCoalescing, ["??"]),
   (comparison, ["<", "<=", ">", ">=", "==", "!=", "===", "!==", "~="]),
   (logicalConjunction, ["&&"]),
   (logicalDisjunction, ["||"]),
   (assignment, ["=", "*=", "/=", "%=", "+=", "-=", "<<=", ">>=", "&=", "|=", "^="])]

def ofText? (op : String) : Option OperatorGroup :=
  (operators.find? fun (_, ops) => ops.contains op).map Prod.fst

theorem rank_injective {a b : OperatorGroup} (h : a.rank = b.rank) : a = b := by
  cases a <;> cases b <;> first | rfl | cases h

end OperatorGroup

end Ferry.Source
