/-
  Ferry.Proofs.Source.Precedence

  How operators group.  At the root of a part of an operation there may be an operator that binds
  tighter, and on the side to which its group nests also one of the same group; a tree is grouped if
  that is so at every operation.

  The sequence of a grouped tree is cut at the root of the tree, so folding it gives the tree back
  (`fold_sequence`).  A sequence of opaque operands with operators between them therefore has one
  grouped tree, which is what it is folded to (`exists_unique_isGrouped`).
-/
import Ferry.Proofs.Source.Grammar

namespace Ferry.Source

variable {α : Type}

/-! ## Groups -/

namespace OperatorGroup

/-- Whether an operator of a group may be at the root of a part of one of this group, on the given
    side. -/
def Takes (group : OperatorGroup) (side : Associativity) (part : OperatorGroup) : Prop :=
  group.rank < part.rank ∨ part = group ∧ group.associativity = side

theorem Takes.rank_le {group part : OperatorGroup} {side : Associativity}
    (h : group.Takes side part) : group.rank ≤ part.rank := by
  obtain h | ⟨rfl, -⟩ := h
  · exact Nat.le_of_lt h
  · exact Nat.le_refl _

/-- What binds at least as tight as something taken on a side is taken there too. -/
theorem Takes.mono {group part inner : OperatorGroup} {side : Associativity}
    (h : group.Takes side part) (hinner : part.rank ≤ inner.rank) : group.Takes side inner := by
  obtain h | ⟨rfl, hside⟩ := h
  · exact .inl (Nat.lt_of_lt_of_le h hinner)
  · obtain hlt | heq := Nat.lt_or_eq_of_le hinner
    · exact .inl hlt
    · exact .inr ⟨(rank_injective heq).symm, hside⟩

/-- Of two operators, the one on the left takes the other or is taken by it. -/
theorem not_takes_right_iff {first second : OperatorGroup} :
    ¬ first.Takes .right second ↔ second.Takes .left first := by
  by_cases hrank : first.rank = second.rank
  · obtain rfl := rank_injective hrank
    cases hside : first.associativity <;> simp [Takes, hside]
  · have hne : second ≠ first := fun h => hrank (h ▸ rfl)
    simp only [Takes, hne, hne.symm, false_and, or_false]
    omega

end OperatorGroup

theorem Operation.yields_iff {first second : Operation α} :
    first.yields second = true ↔ first.group.Takes .right second.group := by
  simp only [yields, Bool.or_eq_true, decide_eq_true_eq, Bool.and_eq_true, beq_iff_eq,
    OperatorGroup.Takes]
  refine or_congr_right (and_congr_left' ⟨fun h => (OperatorGroup.rank_injective h).symm, ?_⟩)
  intro h
  rw [h]

/-! ## Cuts -/

/-- Whether an operator takes every operator of two sides as its left and right part. -/
def Divides (op : Operation α) (left right : List (SequenceItem α)) : Prop :=
  (∀ other, .operation other ∈ left → op.group.Takes .left other.group) ∧
    ∀ other, .operation other ∈ right → op.group.Takes .right other.group

theorem divides_of_cutLoosest {items : List (SequenceItem α)} {cut : Cut α}
    (h : cutLoosest items = some cut) : Divides cut.op cut.left cut.right := by
  induction items generalizing cut with
  | nil => cases h
  | cons item rest ih =>
    cases item with
    | operand tree =>
      simp only [cutLoosest, Option.map_eq_some_iff] at h
      obtain ⟨inner, hinner, rfl⟩ := h
      obtain ⟨hleft, hright⟩ := ih hinner
      exact ⟨fun other hother => hleft other (by simpa using hother), hright⟩
    | operation op =>
      simp only [cutLoosest] at h
      split at h
      next hnone =>
        cases h
        refine ⟨by simp, fun other hother => ?_⟩
        obtain ⟨_, hoperand⟩ := cutLoosest_eq_none hnone _ hother
        cases hoperand
      next inner hinner =>
        obtain ⟨hleft, hright⟩ := ih hinner
        split at h
        next hyields =>
          -- the cut of the rest is as loose as anything there, and this operator takes it
          cases h
          have hinnerOp := Operation.yields_iff.mp hyields
          refine ⟨by simp, fun other hother => hinnerOp.mono ?_⟩
          rw [cutLoosest_eq_some hinner, List.mem_append, List.mem_cons] at hother
          obtain hother | hother | hother := hother
          · exact (hleft other hother).rank_le
          · cases hother
            exact Nat.le_refl _
          · exact (hright other hother).rank_le
        next hyields =>
          cases h
          rw [Operation.yields_iff, OperatorGroup.not_takes_right_iff] at hyields
          refine ⟨fun other hother => ?_, hright⟩
          obtain hother | hother := List.mem_cons.mp hother
          · cases hother
            exact hyields
          · exact hleft other hother

theorem cutLoosest_of_divides {op : Operation α} {left right : List (SequenceItem α)}
    (h : Divides op left right) :
    cutLoosest (left ++ .operation op :: right) = some ⟨left, op, right⟩ := by
  obtain ⟨hleft, hright⟩ := h
  induction left with
  | nil =>
    simp only [List.nil_append, cutLoosest]
    -- The operator takes whatever the rest would be cut at.
    cases hcut : cutLoosest right with
    | none => rfl
    | some cut =>
      have hmem : .operation cut.op ∈ right := by
        rw [cutLoosest_eq_some hcut]
        simp
      have hyields := Operation.yields_iff.mpr (hright cut.op hmem)
      simp [hyields]
  | cons item rest ih =>
    have hcut := ih fun other hother => hleft other (List.mem_cons_of_mem item hother)
    cases item with
    | operand tree => simp [cutLoosest, hcut]
    | operation other =>
      -- The operators to the left do not take the one that comes last.
      have hyields := OperatorGroup.not_takes_right_iff.mpr (hleft other List.mem_cons_self)
      rw [← Operation.yields_iff] at hyields
      simp [cutLoosest, hcut, hyields]

/-! ## Grouped trees -/

namespace OperatorTree

def group? : OperatorTree α → Option OperatorGroup
  | leaf _ => none
  | binary _ _ group _ => some group
  | ternary _ _ _ => some .ternary
  | cast _ _ _ => some .casting

/-- Whether the operators at the roots of two parts may stand there under an operator of a group. -/
def Fits (group : OperatorGroup) (left right : OperatorTree α) : Prop :=
  (∀ part ∈ left.group?, group.Takes .left part) ∧ ∀ part ∈ right.group?, group.Takes .right part

/-- Whether precedence and associativity are respected everywhere. -/
def IsGrouped : OperatorTree α → Prop
  | leaf _ => True
  | binary lhs _ group rhs => Fits group lhs rhs ∧ lhs.IsGrouped ∧ rhs.IsGrouped
  | ternary condition _ otherwise =>
    Fits .ternary condition otherwise ∧ condition.IsGrouped ∧ otherwise.IsGrouped
  | cast operand _ _ =>
    (∀ part ∈ operand.group?, OperatorGroup.casting.Takes .left part) ∧ operand.IsGrouped

theorem exists_operation_of_group? {tree : OperatorTree α} {group : OperatorGroup}
    (h : group ∈ tree.group?) : ∃ op, .operation op ∈ tree.sequence ∧ op.group = group := by
  cases tree with
  | leaf operand => cases h
  | binary lhs op group rhs =>
    cases h
    exact ⟨.binary op group, by simp [sequence], rfl⟩
  | ternary condition middle otherwise =>
    cases h
    exact ⟨.ternary middle, by simp [sequence], rfl⟩
  | cast operand op ty =>
    cases h
    exact ⟨.cast op (some ty), by simp [sequence], rfl⟩

theorem exists_group?_of_mem {tree : OperatorTree α} {op : Operation α}
    (h : .operation op ∈ tree.sequence) : ∃ group, group ∈ tree.group? := by
  cases tree with
  | leaf operand => simp [sequence] at h
  | binary lhs op group rhs => exact ⟨group, rfl⟩
  | ternary condition middle otherwise => exact ⟨.ternary, rfl⟩
  | cast operand op ty => exact ⟨.casting, rfl⟩

section

variable {group : OperatorGroup} {left right : OperatorTree α}

/-- An operator binds as loose as anything in its parts if it does so at their roots. -/
theorem Fits.rank_le (h : Fits group left right) {op : Operation α}
    (hleft : ∀ part ∈ left.group?, .operation op ∈ left.sequence → part.rank ≤ op.group.rank)
    (hright : ∀ part ∈ right.group?, .operation op ∈ right.sequence → part.rank ≤ op.group.rank)
    (hop : .operation op ∈ left.sequence ∨ op.group = group ∨ .operation op ∈ right.sequence) :
    group.rank ≤ op.group.rank := by
  obtain hop | rfl | hop := hop
  · obtain ⟨part, hpart⟩ := exists_group?_of_mem hop
    exact Nat.le_trans (h.1 part hpart).rank_le (hleft part hpart hop)
  · exact Nat.le_refl _
  · obtain ⟨part, hpart⟩ := exists_group?_of_mem hop
    exact Nat.le_trans (h.2 part hpart).rank_le (hright part hpart hop)

theorem IsGrouped.rank_le {tree : OperatorTree α} (h : tree.IsGrouped) :
    ∀ part ∈ tree.group?, ∀ op, .operation op ∈ tree.sequence → part.rank ≤ op.group.rank := by
  induction tree with
  | leaf operand => simp [group?]
  | binary lhs symbol group rhs ihl ihr
  | ternary condition middle otherwise ihl ihr =>
    -- Both sides are within their root, and the root fits to the operator here.
    obtain ⟨hfits, hl, hr⟩ := h
    rintro part hpart op hop
    cases hpart
    refine hfits.rank_le (fun part hpart => ihl hl part hpart op)
      (fun part hpart => ihr hr part hpart op) ?_
    rw [sequence, List.mem_append, List.mem_cons, SequenceItem.operation.injEq] at hop
    exact hop.imp_right (Or.imp_left (congrArg Operation.group))
  | cast operand symbol ty ih =>
    obtain ⟨hfits, hoperand⟩ := h
    rintro part hpart op hop
    cases hpart
    rw [sequence, List.mem_append, List.mem_singleton, SequenceItem.operation.injEq] at hop
    obtain hop | rfl := hop
    · obtain ⟨inner, hinner⟩ := exists_group?_of_mem hop
      exact Nat.le_trans (hfits inner hinner).rank_le (ih hoperand inner hinner op hop)
    · exact Nat.le_refl _

theorem IsGrouped.takes {tree : OperatorTree α} (h : tree.IsGrouped) {side : Associativity}
    (hroot : ∀ part ∈ tree.group?, group.Takes side part) {op : Operation α}
    (hop : .operation op ∈ tree.sequence) : group.Takes side op.group := by
  obtain ⟨part, hpart⟩ := exists_group?_of_mem hop
  exact (hroot part hpart).mono (h.rank_le part hpart op hop)

theorem Fits.divides {op : Operation α} (h : Fits op.group left right) (hleft : left.IsGrouped)
    (hright : right.IsGrouped) : Divides op left.sequence right.sequence :=
  ⟨fun _ hother => hleft.takes h.1 hother, fun _ hother => hright.takes h.2 hother⟩

end

end OperatorTree

/-! ## Folding -/

open OperatorTree

theorem fold_sequence {tree : OperatorTree α} (h : tree.IsGrouped) :
    fold tree.sequence = .ok tree := by
  induction tree with
  | leaf operand => exact (fold_ok_of_uncut rfl).mpr rfl
  | binary lhs symbol group rhs ihl ihr =>
    obtain ⟨hfits, hl, hr⟩ := h
    have hdivides : Divides (.binary symbol group) lhs.sequence rhs.sequence :=
      Fits.divides hfits hl hr
    have hcut := cutLoosest_of_divides hdivides
    exact (fold_ok_of_binary hcut).mpr ⟨lhs, rhs, ihl hl, ihr hr, rfl⟩
  | ternary condition middle otherwise ihl ihr =>
    obtain ⟨hfits, hl, hr⟩ := h
    have hdivides : Divides (.ternary middle) condition.sequence otherwise.sequence :=
      Fits.divides hfits hl hr
    have hcut := cutLoosest_of_divides hdivides
    exact (fold_ok_of_ternary hcut).mpr ⟨condition, otherwise, ihl hl, ihr hr, rfl⟩
  | cast operand symbol ty ih =>
    obtain ⟨hfits, hoperand⟩ := h
    have hdivides : Divides (.cast symbol (some ty)) operand.sequence [] :=
      ⟨fun _ hother => hoperand.takes hfits hother, by simp⟩
    have hcut := cutLoosest_of_divides hdivides
    exact (fold_ok_of_cast hcut).mpr ⟨operand, ih hoperand, (fold_ok_of_uncut rfl).mpr rfl⟩

/-- An item without casts: an opaque operand, or an operator between two operands. -/
def SequenceItem.IsPlain : SequenceItem α → Prop
  | operand (.leaf _) | operation (.binary _ _) | operation (.ternary _) => True
  | _ => False

theorem flatMap_spread_of_isPlain {items : List (SequenceItem α)}
    (h : ∀ item ∈ items, item.IsPlain) : items.flatMap SequenceItem.spread = items := by
  induction items with
  | nil => rfl
  | cons item rest ih =>
    rw [List.forall_mem_cons] at h
    rw [List.flatMap_cons, ih h.2]
    match item, h.1 with
    | .operand (.leaf _), _ | .operation (.binary _ _), _ | .operation (.ternary _), _ => rfl

/-- Operands that come from two sides of an operator fit under it if it divides the sides. -/
theorem Divides.fits {op : Operation α} {left right : List (SequenceItem α)}
    {lhs rhs : OperatorTree α} (h : Divides op left right) (hleft : lhs.sequence = left)
    (hright : rhs.sequence = right) : Fits op.group lhs rhs := by
  subst hleft hright
  constructor
  · intro part hpart
    obtain ⟨other, hother, rfl⟩ := exists_operation_of_group? hpart
    exact h.1 other hother
  · intro part hpart
    obtain ⟨other, hother, rfl⟩ := exists_operation_of_group? hpart
    exact h.2 other hother

theorem isGrouped_of_fold {items : List (SequenceItem α)} (hplain : ∀ item ∈ items, item.IsPlain)
    {tree : OperatorTree α} (h : fold items = .ok tree) : tree.IsGrouped := by
  induction items using cutting_induction generalizing tree with
  | uncut items hcut =>
    obtain rfl := (fold_ok_of_uncut hcut).mp h
    have htree := hplain (.operand tree) List.mem_cons_self
    match tree, htree with
    | .leaf _, _ => trivial
  | cut items left op right hcut ihleft ihright _ =>
    have hdivides := divides_of_cutLoosest hcut
    obtain rfl := cutLoosest_eq_some hcut
    simp only at hdivides hplain
    rw [List.forall_mem_append, List.forall_mem_cons] at hplain
    obtain ⟨hleft, hop, hright⟩ := hplain
    match op, hop with
    | .binary op group, _ =>
      obtain ⟨lhs, rhs, hl, hr, rfl⟩ := (fold_ok_of_binary hcut).mp h
      -- A side of the cut holds what stands there, so its root is one of the operators that were
      -- taken.
      have hlhs := (sequence_of_fold hl).trans (flatMap_spread_of_isPlain hleft)
      have hrhs := (sequence_of_fold hr).trans (flatMap_spread_of_isPlain hright)
      exact ⟨hdivides.fits hlhs hrhs, ihleft hleft hl, ihright hright hr⟩
    | .ternary middle, _ =>
      obtain ⟨condition, otherwise, hl, hr, rfl⟩ := (fold_ok_of_ternary hcut).mp h
      have hlhs := (sequence_of_fold hl).trans (flatMap_spread_of_isPlain hleft)
      have hrhs := (sequence_of_fold hr).trans (flatMap_spread_of_isPlain hright)
      exact ⟨hdivides.fits hlhs hrhs, ihleft hleft hl, ihright hright hr⟩

/-! ## Alternations -/

/-- An operator that stands between two operands. -/
inductive Connective (α : Type) where
  | binary (op : String) (group : OperatorGroup)
  | ternary (middle : α)

def Connective.operation : Connective α → Operation α
  | binary op group => .binary op group
  | ternary middle => .ternary middle

/-- Operators, each with the operand to its right. -/
def alternationAfter (rest : List (Connective α × α)) : List (SequenceItem α) :=
  rest.flatMap fun (op, operand) => [.operation op.operation, .operand (.leaf operand)]

/-- A sequence of opaque operands with an operator between every two of them. -/
def alternation (first : α) (rest : List (Connective α × α)) : List (SequenceItem α) :=
  .operand (.leaf first) :: alternationAfter rest

theorem advanceAll_alternationAfter (rest : List (Connective α × α)) :
    advanceAll true (alternationAfter rest) = some true := by
  rw [alternationAfter, List.flatMap]
  apply advanceAll_flatten
  simp only [List.mem_map, Prod.exists, forall_exists_index, and_imp]
  rintro _ op operand - rfl
  cases op <;> rfl

theorem isPlain_of_mem_alternation (first : α) (rest : List (Connective α × α)) :
    ∀ item ∈ alternation first rest, item.IsPlain := by
  rw [alternation, List.forall_mem_cons]
  refine ⟨trivial, ?_⟩
  simp only [alternationAfter, List.mem_flatMap, List.mem_cons, List.not_mem_nil, or_false,
    Prod.exists]
  rintro _ ⟨op, operand, -, rfl | rfl⟩
  · cases op <;> trivial
  · trivial

/-- Opaque operands with operators between them are folded to a tree that is grouped, and there is
    no other grouped tree of the sequence. -/
theorem exists_unique_isGrouped (first : α) (rest : List (Connective α × α)) :
    ∃ tree, fold (alternation first rest) = .ok tree ∧ tree.IsGrouped ∧
      tree.sequence = alternation first rest ∧
      ∀ other : OperatorTree α, other.sequence = alternation first rest → other.IsGrouped →
        other = tree := by
  have haccepted : advanceAll false (alternation first rest) = some true :=
    advanceAll_alternationAfter rest
  obtain ⟨tree, htree⟩ := (fold_isOk_iff_advanceAll _).mpr haccepted
  have hplain := isPlain_of_mem_alternation first rest
  refine ⟨tree, htree, isGrouped_of_fold hplain htree, ?_, fun other hsequence hother => ?_⟩
  · rw [sequence_of_fold htree, flatMap_spread_of_isPlain hplain]
  · have hfold := fold_sequence hother
    rw [hsequence, htree] at hfold
    exact (Except.ok.inj hfold).symm

end Ferry.Source
