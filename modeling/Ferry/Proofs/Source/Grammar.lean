/-
  Ferry.Proofs.Source.Grammar

  Which sequences are expressions.  The rule is given as a language of sequence items: an operand
  with casts after it, then operators, each with an operand and its casts.  Folding cuts a sequence
  anywhere, so the rule is also given as an automaton that only remembers whether an operand comes
  next: what a sequence needs is then what its parts need, wherever it is cut.

  Folding ends on every sequence and gives a tree exactly for the expressions, and the tree read
  from left to right is the sequence again (`fold_isOk_iff_and_sequence`).
-/
import Ferry.Source.Fold
import Mathlib.Computability.Language

namespace Ferry.Source

open scoped Computability

variable {α : Type}

/-! ## Expressions as a language -/

namespace SequenceItem

def operands : Language (SequenceItem α) :=
  { items | ∃ tree, items = [.operand tree] }

def casts : Language (SequenceItem α) :=
  { items | ∃ op ty, items = [.operation (.cast op (some ty))] }

/-- A single operator that stands between two operands. -/
def connectives : Language (SequenceItem α) :=
  { items | (∃ op group, items = [.operation (.binary op group)]) ∨
    ∃ middle, items = [.operation (.ternary middle)] }

/-- An operand with its casts, then operators, each with an operand and its casts. -/
def expressions : Language (SequenceItem α) :=
  operands * casts∗ * (connectives * operands * casts∗)∗

theorem append_mem_kstar {l : Language (SequenceItem α)} {first rest : List (SequenceItem α)}
    (hfirst : first ∈ l) (hrest : rest ∈ l∗) : first ++ rest ∈ l∗ := by
  obtain ⟨parts, rfl, hparts⟩ := Language.mem_kstar.mp hrest
  exact Language.mem_kstar.mpr ⟨first :: parts, rfl, List.forall_mem_cons.mpr ⟨hfirst, hparts⟩⟩

/-- What may follow an operand may also follow a further operator with its operand. -/
theorem connective_mem {op : Operation α} (hop : [.operation op] ∈ connectives)
    (tree : OperatorTree α) {rest : List (SequenceItem α)}
    (hrest : rest ∈ casts∗ * (connectives * operands * casts∗)∗) :
    .operation op :: .operand tree :: rest ∈ casts∗ * (connectives * operands * casts∗)∗ := by
  obtain ⟨typed, htyped, others, hothers, rfl⟩ := hrest
  have hfirst : .operation op :: .operand tree :: typed ∈ connectives * operands * casts∗ :=
    ⟨_, ⟨_, hop, _, ⟨tree, rfl⟩, rfl⟩, typed, htyped, rfl⟩
  exact ⟨[], Language.nil_mem_kstar _, _, append_mem_kstar hfirst hothers, rfl⟩

end SequenceItem

/-! ## Expressions by an automaton -/

/-- Takes one item of a sequence.  The state tells whether an operand has just ended; without one,
    an operand has to come next. -/
def advance : Bool → SequenceItem α → Option Bool
  | false, .operand _ => some true
  | true, .operation (.binary _ _) => some false
  | true, .operation (.ternary _) => some false
  | true, .operation (.cast _ (some _)) => some true
  | _, _ => none

def advanceAll (ended : Bool) (items : List (SequenceItem α)) : Option Bool :=
  items.foldlM advance ended

theorem advanceAll_append (ended : Bool) (left right : List (SequenceItem α)) :
    advanceAll ended (left ++ right) = (advanceAll ended left).bind (advanceAll · right) :=
  List.foldlM_append

theorem advanceAll_cons (ended : Bool) (item : SequenceItem α) (rest : List (SequenceItem α)) :
    advanceAll ended (item :: rest) = (advance ended item).bind (advanceAll · rest) :=
  List.foldlM_cons

theorem advanceAll_operand (tree : OperatorTree α) (rest : List (SequenceItem α)) :
    advanceAll false (.operand tree :: rest) = advanceAll true rest :=
  advanceAll_cons _ _ _

/-- Around an operator, which stands after an operand, both sides are taken on their own. -/
theorem advanceAll_around {ended last : Bool} {left right : List (SequenceItem α)}
    {op : Operation α} :
    advanceAll ended (left ++ .operation op :: right) = some last ↔
      advanceAll ended left = some true ∧
        (advance true (.operation op)).bind (advanceAll · right) = some last := by
  rw [advanceAll_append]
  cases advanceAll ended left with
  | none => simp
  | some middle =>
    rw [Option.bind_some, advanceAll_cons]
    cases middle with
    | true => simp
    | false => simp [advance]

theorem advanceAll_flatten {parts : List (List (SequenceItem α))} {ended : Bool}
    (h : ∀ part ∈ parts, advanceAll ended part = some ended) :
    advanceAll ended parts.flatten = some ended := by
  induction parts with
  | nil => rfl
  | cons part rest ih =>
    rw [List.forall_mem_cons] at h
    rw [List.flatten_cons, advanceAll_append, h.1, Option.bind_some]
    exact ih h.2

theorem mem_continuation {items : List (SequenceItem α)} (h : advanceAll true items = some true) :
    items ∈ SequenceItem.casts∗ *
      (SequenceItem.connectives * SequenceItem.operands * SequenceItem.casts∗)∗ := by
  -- an operator takes its operand with it, so the list is taken apart by one or two items
  match items with
  | [] => exact ⟨[], Language.nil_mem_kstar _, [], Language.nil_mem_kstar _, rfl⟩
  | .operand _ :: _ | .operation (.cast _ none) :: _ => cases h
  | .operation (.cast op (some ty)) :: rest =>
    have hrest : advanceAll true rest = some true := h
    obtain ⟨casts, hcasts, others, hothers, rfl⟩ := mem_continuation hrest
    exact ⟨_, SequenceItem.append_mem_kstar ⟨op, ty, rfl⟩ hcasts, others, hothers, rfl⟩
  | [.operation (.binary _ _)] | [.operation (.ternary _)] => cases h
  | .operation (.binary _ _) :: .operation _ :: _ => cases h
  | .operation (.ternary _) :: .operation _ :: _ => cases h
  | .operation (.binary op group) :: .operand tree :: rest =>
    exact SequenceItem.connective_mem (.inl ⟨op, group, rfl⟩) tree (mem_continuation h)
  | .operation (.ternary middle) :: .operand tree :: rest =>
    exact SequenceItem.connective_mem (.inr ⟨middle, rfl⟩) tree (mem_continuation h)

theorem advanceAll_of_mem_casts {items : List (SequenceItem α)}
    (h : items ∈ (SequenceItem.casts : Language (SequenceItem α))∗) :
    advanceAll true items = some true := by
  obtain ⟨parts, rfl, hparts⟩ := Language.mem_kstar.mp h
  refine advanceAll_flatten fun part hpart => ?_
  obtain ⟨op, ty, rfl⟩ := hparts part hpart
  rfl

theorem advanceAll_of_mem_operations {items : List (SequenceItem α)}
    (h : items ∈ (SequenceItem.connectives * SequenceItem.operands * SequenceItem.casts∗ :
      Language (SequenceItem α))∗) :
    advanceAll true items = some true := by
  obtain ⟨parts, rfl, hparts⟩ := Language.mem_kstar.mp h
  refine advanceAll_flatten fun part hpart => ?_
  obtain ⟨_, ⟨_, hop, _, ⟨tree, rfl⟩, rfl⟩, casts, hcasts, rfl⟩ := hparts part hpart
  rw [advanceAll_append]
  obtain ⟨op, group, rfl⟩ | ⟨middle, rfl⟩ := hop
  all_goals exact advanceAll_of_mem_casts hcasts

theorem advanceAll_eq_true_iff {items : List (SequenceItem α)} :
    advanceAll false items = some true ↔ items ∈ SequenceItem.expressions := by
  constructor
  · intro h
    match items with
    | [] => cases h
    | .operation _ :: _ => cases h
    | .operand tree :: rest =>
      rw [advanceAll_operand] at h
      rw [SequenceItem.expressions, mul_assoc]
      exact ⟨_, ⟨tree, rfl⟩, rest, mem_continuation h, rfl⟩
  · rintro ⟨_, ⟨_, ⟨tree, rfl⟩, casts, hcasts, rfl⟩, others, hothers, rfl⟩
    show advanceAll true (casts ++ others) = some true
    rw [advanceAll_append, advanceAll_of_mem_casts hcasts]
    exact advanceAll_of_mem_operations hothers

/-! ## Trees from left to right -/

/-- The sequence that a tree is read from: what it holds from left to right. -/
def OperatorTree.sequence : OperatorTree α → List (SequenceItem α)
  | leaf operand => [.operand (.leaf operand)]
  | binary lhs op group rhs => lhs.sequence ++ .operation (.binary op group) :: rhs.sequence
  | ternary condition middle otherwise =>
    condition.sequence ++ .operation (.ternary middle) :: otherwise.sequence
  | cast operand op ty => operand.sequence ++ [.operation (.cast op (some ty))]

/-- An item with everything it holds from left to right.  An operand that is a leaf is itself. -/
def SequenceItem.spread : SequenceItem α → List (SequenceItem α)
  | operand tree => tree.sequence
  | operation op => [.operation op]

/-! ## Folding -/

section

variable {items left right : List (SequenceItem α)} {tree : OperatorTree α}

theorem cutLoosest_eq_none (h : cutLoosest items = none) :
    ∀ item ∈ items, ∃ tree, item = .operand tree := by
  induction items with
  | nil => simp
  | cons item rest ih =>
    cases item with
    | operand tree =>
      simp only [cutLoosest, Option.map_eq_none_iff] at h
      exact List.forall_mem_cons.mpr ⟨⟨tree, rfl⟩, ih h⟩
    | operation op =>
      simp only [cutLoosest] at h
      split at h
      · cases h
      · split at h <;> cases h

theorem fold_nil : fold ([] : List (SequenceItem α)) = .error .missingOperand := by
  rw [fold]
  rfl

theorem fold_ok_of_uncut (h : cutLoosest items = none) :
    fold items = .ok tree ↔ items = [.operand tree] := by
  have hitems := cutLoosest_eq_none h
  rw [fold]
  split <;> rename_i hcut <;> rw [h] at hcut <;> cases hcut
  cases items with
  | nil => simp [soleOperand]
  | cons item rest =>
    obtain ⟨other, rfl⟩ := hitems item List.mem_cons_self
    cases rest <;> simp [soleOperand]

theorem fold_ok_of_binary {op : String} {group : OperatorGroup}
    (h : cutLoosest items = some ⟨left, .binary op group, right⟩) :
    fold items = .ok tree ↔
      ∃ lhs rhs, fold left = .ok lhs ∧ fold right = .ok rhs ∧ tree = .binary lhs op group rhs := by
  rw [fold]
  split <;> rename_i hcut <;> rw [h] at hcut <;> cases hcut
  split
  next hempty =>
    -- an empty side has no tree of its own either
    simp only [reduceCtorEq, false_iff, not_exists]
    rintro lhs rhs ⟨hl, hr, -⟩
    rw [Bool.or_eq_true, List.isEmpty_iff, List.isEmpty_iff] at hempty
    obtain rfl | rfl := hempty
    · rw [fold_nil] at hl; cases hl
    · rw [fold_nil] at hr; cases hr
  next =>
    cases fold left <;> cases fold right <;> simp [bind, Except.bind, pure, Except.pure, eq_comm]

theorem fold_ok_of_ternary {middle : α}
    (h : cutLoosest items = some ⟨left, .ternary middle, right⟩) :
    fold items = .ok tree ↔
      ∃ condition otherwise, fold left = .ok condition ∧ fold right = .ok otherwise ∧
        tree = .ternary condition middle otherwise := by
  rw [fold]
  split <;> rename_i hcut <;> rw [h] at hcut <;> cases hcut
  cases fold left <;> cases fold right <;> simp [bind, Except.bind, pure, Except.pure, eq_comm]

theorem fold_ne_ok_of_untyped {op : String}
    (h : cutLoosest items = some ⟨left, .cast op none, right⟩) : fold items ≠ .ok tree := by
  rw [fold]
  split <;> rename_i hcut <;> rw [h] at hcut <;> cases hcut
  simp

/-- What a cast is applied to becomes an operand of the rest, also if nothing is left. -/
theorem fold_ok_of_cast {op ty : String}
    (h : cutLoosest items = some ⟨left, .cast op (some ty), right⟩) :
    fold items = .ok tree ↔
      ∃ operand, fold left = .ok operand ∧
        fold (.operand (.cast operand op ty) :: right) = .ok tree := by
  have hsole : ∀ operand : OperatorTree α, fold [.operand operand] = .ok operand :=
    fun operand => (fold_ok_of_uncut rfl).mpr rfl
  rw [fold]
  split <;> rename_i hcut <;> rw [h] at hcut <;> cases hcut
  · simp [fold_nil]
  next first left =>
    cases fold (first :: left) with
    | error e => simp [bind, Except.bind]
    | ok operand =>
      cases right with
      | nil => simp [bind, Except.bind, pure, Except.pure, hsole]
      | cons => simp [bind, Except.bind]

/-- Induction along the cuts of a sequence: what holds of both sides of the cut, and of the right
    side behind an operand that stands for the left one, holds of the whole. -/
theorem cutting_induction {motive : List (SequenceItem α) → Prop}
    (uncut : ∀ items, cutLoosest items = none → motive items)
    (cut : ∀ items left op right, cutLoosest items = some ⟨left, op, right⟩ → motive left →
      motive right → (left ≠ [] → ∀ tree, motive (.operand tree :: right)) → motive items)
    (items : List (SequenceItem α)) : motive items := by
  induction hlength : items.length using Nat.strong_induction_on generalizing items with
  | _ n ih =>
    subst hlength
    cases hcut : cutLoosest items with
    | none => exact uncut items hcut
    | some found =>
      obtain ⟨left, op, right⟩ := found
      have hlength := length_of_cutLoosest hcut
      simp only at hlength
      refine cut items left op right hcut ?_ ?_ fun hleft tree => ?_
      · exact ih left.length (by omega) left rfl
      · exact ih right.length (by omega) right rfl
      · have hpos := List.length_pos_of_ne_nil hleft
        exact ih _ (by simp only [List.length_cons]; omega) _ rfl

theorem left_ne_nil_of_fold {operand : OperatorTree α} (h : fold left = .ok operand) :
    left ≠ [] := by
  rintro rfl
  rw [fold_nil] at h
  cases h

end

/-! ## What is accepted -/

theorem advanceAll_uncut {items : List (SequenceItem α)} (h : cutLoosest items = none) :
    advanceAll false items = some true ↔ ∃ tree, items = [.operand tree] := by
  constructor
  · intro haccepted
    match items with
    | [] => cases haccepted
    | [.operand tree] => exact ⟨tree, rfl⟩
    | .operand _ :: .operand _ :: _ => cases haccepted
    | .operation _ :: _ => cases haccepted
    | .operand _ :: .operation op :: _ =>
      obtain ⟨_, hop⟩ := cutLoosest_eq_none h (.operation op) (by simp)
      cases hop
  · rintro ⟨tree, rfl⟩
    rfl

/-- Folding gives a tree exactly for the sequences that the automaton accepts. -/
theorem fold_isOk_iff_advanceAll (items : List (SequenceItem α)) :
    (∃ tree, fold items = .ok tree) ↔ advanceAll false items = some true := by
  induction items using cutting_induction with
  | uncut items h => simp only [fold_ok_of_uncut h, advanceAll_uncut h]
  | cut items left op right h ihleft ihright ihrest =>
    have hitems := cutLoosest_eq_some h
    simp only at hitems
    rw [hitems, advanceAll_around, ← ihleft, ← hitems]
    match op with
    | .binary op group =>
      simp only [fold_ok_of_binary h, advance, Option.bind_some, ← ihright]
      constructor
      · rintro ⟨_, lhs, rhs, hl, hr, -⟩
        exact ⟨⟨lhs, hl⟩, rhs, hr⟩
      · rintro ⟨⟨lhs, hl⟩, rhs, hr⟩
        exact ⟨_, lhs, rhs, hl, hr, rfl⟩
    | .ternary middle =>
      simp only [fold_ok_of_ternary h, advance, Option.bind_some, ← ihright]
      constructor
      · rintro ⟨_, condition, otherwise, hl, hr, -⟩
        exact ⟨⟨condition, hl⟩, otherwise, hr⟩
      · rintro ⟨⟨condition, hl⟩, otherwise, hr⟩
        exact ⟨_, condition, otherwise, hl, hr, rfl⟩
    | .cast op none => simp [fold_ne_ok_of_untyped h, advance]
    | .cast op (some ty) =>
      simp only [fold_ok_of_cast h, advance, Option.bind_some]
      constructor
      -- A cast becomes an operand of what follows, and the sequence is folded again from there.
      · rintro ⟨tree, operand, hl, hrest⟩
        have hright := (ihrest (left_ne_nil_of_fold hl) (.cast operand op ty)).mp ⟨tree, hrest⟩
        exact ⟨⟨operand, hl⟩, hright⟩
      · rintro ⟨⟨operand, hl⟩, hright⟩
        obtain ⟨tree, hrest⟩ := (ihrest (left_ne_nil_of_fold hl) (.cast operand op ty)).mpr hright
        exact ⟨tree, operand, hl, hrest⟩

/-! ## What is kept -/

/-- The tree of a sequence holds the items of the sequence from left to right. -/
theorem sequence_of_fold {items : List (SequenceItem α)} {tree : OperatorTree α}
    (h : fold items = .ok tree) : tree.sequence = items.flatMap SequenceItem.spread := by
  induction items using cutting_induction generalizing tree with
  | uncut items hcut =>
    rw [(fold_ok_of_uncut hcut).mp h]
    simp [SequenceItem.spread]
  | cut items left op right hcut ihleft ihright ihrest =>
    rw [cutLoosest_eq_some hcut, List.flatMap_append, List.flatMap_cons]
    match op with
    | .binary op group =>
      obtain ⟨lhs, rhs, hl, hr, rfl⟩ := (fold_ok_of_binary hcut).mp h
      rw [← ihleft hl, ← ihright hr]
      rfl
    | .ternary middle =>
      obtain ⟨condition, otherwise, hl, hr, rfl⟩ := (fold_ok_of_ternary hcut).mp h
      rw [← ihleft hl, ← ihright hr]
      rfl
    | .cast op none => exact absurd h (fold_ne_ok_of_untyped hcut)
    | .cast op (some ty) =>
      obtain ⟨operand, hl, hrest⟩ := (fold_ok_of_cast hcut).mp h
      -- The cast stands at the front of what is folded again, in the order it was written.
      have hsequence := ihrest (left_ne_nil_of_fold hl) _ hrest
      rw [hsequence, List.flatMap_cons, ← ihleft hl, ← List.append_assoc]
      rfl

/-- Every sequence is folded, it has a tree exactly if it is an expression, and its tree holds its
    items from left to right. -/
theorem fold_isOk_iff_and_sequence (items : List (SequenceItem α)) :
    ((∃ tree, fold items = .ok tree) ↔ items ∈ SequenceItem.expressions) ∧
      ∀ tree, fold items = .ok tree → tree.sequence = items.flatMap SequenceItem.spread := by
  refine ⟨?_, fun tree h => sequence_of_fold h⟩
  rw [fold_isOk_iff_advanceAll, advanceAll_eq_true_iff]

end Ferry.Source
