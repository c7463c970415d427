/-
  Ferry.Source.Fold

  Reading a flat sequence of operands and operators as a tree. The sequence is cut at its loosest
  operator, the last of several when their group nests to the left and the first when it nests to
  the right; both halves are read the same way. A cast takes its type with it, so what it is applied
  to becomes an operand of the rest.

  The operands are opaque: nothing but the operators decides the shape.
-/
import Ferry.Source.Operator

namespace Ferry.Source

/-- An operator between operands. A ternary carries its middle operand, a cast its type if it has
one. -/
inductive Operation (α : Type) where
  | binary (op : String) (group : OperatorGroup)
  | ternary (middle : α)
  | cast (op : String) (ty : Option String)

/-- What a sequence is read as. -/
inductive OperatorTree (α : Type) where
  | leaf (operand : α)
  | binary (lhs : OperatorTree α) (op : String) (group : OperatorGroup) (rhs : OperatorTree α)
  | ternary (condition : OperatorTree α) (middle : α) (otherwise : OperatorTree α)
  | cast (operand : OperatorTree α) (op : String) (ty : String)

inductive SequenceItem (α : Type) where
  | operand (tree : OperatorTree α)
  | operation (op : Operation α)

inductive FoldError where
  | missingOperand
  | missingOperator
  | incomplete (op : String)
  | untypedCast (op : String)
deriving DecidableEq, Repr

namespace FoldError

def message : FoldError → String
  | missingOperand => "missing operand"
  | missingOperator => "operands without an operator between them"
  | incomplete op => "operator `" ++ op ++ "` is missing an operand"
  | untypedCast op => "`" ++ op ++ "` without a type"

end FoldError

namespace Operation

def group {α : Type} : Operation α → OperatorGroup
  | binary _ group => group
  | ternary _ => .ternary
  | cast _ _ => .casting

/-- Whether the first operator is applied after the second, which stands to its right. -/
def yields {α : Type} (first second : Operation α) : Bool :=
  first.group.rank < second.group.rank ||
    (first.group.rank == second.group.rank && first.group.associativity == .right)

end Operation

/-! ## Cutting -/

structure Cut (α : Type) where
  left : List (SequenceItem α)
  op : Operation α
  right : List (SequenceItem α)

/-- The sequence cut at the operator that is applied last, if there is an operator. -/
def cutLoosest {α : Type} : List (SequenceItem α) → Option (Cut α)
  | [] => none
  | .operand tree :: rest =>
    (cutLoosest rest).map fun cut => { cut with left := .operand tree :: cut.left }
  | .operation op :: rest =>
    match cutLoosest rest with
    | none => some ⟨[], op, rest⟩
    | some cut =>
      if op.yields cut.op then some ⟨[], op, rest⟩
      else some { cut with left := .operation op :: cut.left }

theorem cutLoosest_eq_some {α : Type} {items : List (SequenceItem α)} {cut : Cut α}
    (h : cutLoosest items = some cut) : items = cut.left ++ .operation cut.op :: cut.right := by
  induction items generalizing cut with
  | nil => simp [cutLoosest] at h
  | cons item rest ih =>
    cases item with
    | operand tree =>
      simp only [cutLoosest, Option.map_eq_some_iff] at h
      obtain ⟨inner, hinner, rfl⟩ := h
      simpa using ih hinner
    | operation op =>
      simp only [cutLoosest] at h
      split at h
      · cases h; rfl
      next inner hinner =>
        split at h
        · cases h; rfl
        · cases h
          simpa using ih hinner

theorem length_of_cutLoosest {α : Type} {items : List (SequenceItem α)} {cut : Cut α}
    (h : cutLoosest items = some cut) :
    items.length = cut.left.length + 1 + cut.right.length := by
  rw [cutLoosest_eq_some h]
  simp only [List.length_append, List.length_cons]
  omega

/-! ## Folding -/

/-- The tree of a sequence without operators, which must be a single operand. -/
def soleOperand {α : Type} : List (SequenceItem α) → Except FoldError (OperatorTree α)
  | [] => .error .missingOperand
  | [.operand tree] => .ok tree
  | _ => .error .missingOperator

def fold {α : Type} (items : List (SequenceItem α)) : Except FoldError (OperatorTree α) :=
  match _h : cutLoosest items with
  | none => soleOperand items
  | some ⟨left, .binary op group, right⟩ =>
    if left.isEmpty || right.isEmpty then .error (.incomplete op)
    else do
      let lhs ← fold left
      let rhs ← fold right
      return .binary lhs op group rhs
  | some ⟨left, .ternary middle, right⟩ => do
    let condition ← fold left
    let otherwise ← fold right
    return .ternary condition middle otherwise
  | some ⟨_, .cast op none, _⟩ => .error (.untypedCast op)
  | some ⟨[], .cast _ (some _), _⟩ => .error .missingOperand
  | some ⟨first :: left, .cast op (some ty), right⟩ => do
    let operand ← fold (first :: left)
    if right.isEmpty then return .cast operand op ty
    else fold (.operand (.cast operand op ty) :: right)
termination_by items.length
decreasing_by
  all_goals
    have hlen := length_of_cutLoosest _h
    simp only [List.length_cons] at hlen ⊢
    omega

end Ferry.Source
