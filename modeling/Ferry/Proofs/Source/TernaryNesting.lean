/-
  Ferry.Proofs.Source.TernaryNesting

  A ternary may come as an operator of a flat sequence, or as a node of its own that holds what
  stands on both sides of it, a sequence of several nodes or any other node.  `Nests` puts a run of
  a sequence into such a node; one run after the other gives every nesting.

  A sequence is read alike however its ternaries are nested (`readAlike_of_eqvGen`).  A node that
  becomes a side of a ternary gets another role, which only shows in the snapshot of an error, so
  what errors show is left out of the comparison.  A sequence that was a single operand does not
  stay one as a side (`gatherOperators_sides`).
-/
import Ferry.Proofs.Source.Grammar
import Ferry.Proofs.Source.Site
import Mathlib.Logic.Relation

namespace Ferry

/-- An error without the subtree that it shows; anything else is as it is. -/
def Expr.unshown : Expr → Expr
  | .error diagnostic span => .error { diagnostic with snapshot := none } span
  | e => e

theorem Expr.isError_unshown (e : Expr) : e.unshown.isError = e.isError := by
  cases e <;> rfl

theorem Expr.unshown_of_read {e : Expr} (h : e.isError = false) : e.unshown = e := by
  cases e with
  | error => cases h
  | _ => rfl

theorem Expr.eq_of_unshown_eq {e other : Expr} (h : e.unshown = other.unshown)
    (hread : e.isError = false) : e = other := by
  have hother : other.isError = false := by
    rw [← isError_unshown other, ← h, isError_unshown, hread]
  rwa [unshown_of_read hread, unshown_of_read hother] at h

namespace Source

variable {α β : Type}

/-! ## Sequences of other operands -/

def Operation.map (f : α → β) : Operation α → Operation β
  | binary op group => .binary op group
  | ternary middle => .ternary (f middle)
  | cast op ty => .cast op ty

def OperatorTree.map (f : α → β) : OperatorTree α → OperatorTree β
  | leaf operand => .leaf (f operand)
  | binary lhs op group rhs => .binary (lhs.map f) op group (rhs.map f)
  | ternary condition middle otherwise => .ternary (condition.map f) (f middle) (otherwise.map f)
  | cast operand op ty => .cast (operand.map f) op ty

def SequenceItem.map (f : α → β) : SequenceItem α → SequenceItem β
  | operand tree => .operand (tree.map f)
  | operation op => .operation (op.map f)

def Cut.map (f : α → β) (cut : Cut α) : Cut β :=
  ⟨cut.left.map (SequenceItem.map f), cut.op.map f, cut.right.map (SequenceItem.map f)⟩

theorem Operation.yields_map (f : α → β) (first second : Operation α) :
    (first.map f).yields (second.map f) = first.yields second := by
  cases first <;> cases second <;> rfl

theorem cutLoosest_map (f : α → β) (items : List (SequenceItem α)) :
    cutLoosest (items.map (SequenceItem.map f)) = (cutLoosest items).map (Cut.map f) := by
  induction items with
  | nil => rfl
  | cons item rest ih =>
    cases item with
    | operand tree =>
      rw [List.map_cons, SequenceItem.map, cutLoosest, ih, cutLoosest]
      cases cutLoosest rest <;> rfl
    | operation op =>
      rw [List.map_cons, SequenceItem.map, cutLoosest, ih, cutLoosest]
      cases hcut : cutLoosest rest with
      | none => rfl
      | some cut =>
        have hyields : (op.map f).yields (cut.map f).op = op.yields cut.op :=
          Operation.yields_map f op cut.op
        simp only [Option.map_some, hyields]
        split <;> rfl

/-- How a sequence is read does not depend on its operands. -/
theorem fold_map_ok_iff (f : α → β) (items : List (SequenceItem α)) (tree : OperatorTree β) :
    fold (items.map (SequenceItem.map f)) = .ok tree ↔
      ∃ inner, fold items = .ok inner ∧ inner.map f = tree := by
  induction items using cutting_induction generalizing tree with
  | uncut items h =>
    have hmap := cutLoosest_map f items
    rw [h] at hmap
    rw [fold_ok_of_uncut hmap]
    simp only [fold_ok_of_uncut h]
    match items with
    | [] => simp
    | [.operand inner] => simp [SequenceItem.map]
    | [.operation op] => simp [SequenceItem.map]
    | _ :: _ :: _ => simp
  | cut items left op right h ihleft ihright ihrest =>
    -- The cut depends on operators alone, so it is made at the same place.
    have hmap := cutLoosest_map f items
    rw [h] at hmap
    match op with
    | .binary op group =>
      rw [fold_ok_of_binary hmap]
      simp only [fold_ok_of_binary h, ihleft, ihright]
      constructor
      · rintro ⟨_, _, ⟨lhs, hl, rfl⟩, ⟨rhs, hr, rfl⟩, rfl⟩
        exact ⟨_, ⟨lhs, rhs, hl, hr, rfl⟩, rfl⟩
      · rintro ⟨_, ⟨lhs, rhs, hl, hr, rfl⟩, rfl⟩
        exact ⟨_, _, ⟨lhs, hl, rfl⟩, ⟨rhs, hr, rfl⟩, rfl⟩
    | .ternary middle =>
      rw [fold_ok_of_ternary hmap]
      simp only [fold_ok_of_ternary h, ihleft, ihright]
      constructor
      · rintro ⟨_, _, ⟨condition, hl, rfl⟩, ⟨otherwise, hr, rfl⟩, rfl⟩
        exact ⟨_, ⟨condition, otherwise, hl, hr, rfl⟩, rfl⟩
      · rintro ⟨_, ⟨condition, otherwise, hl, hr, rfl⟩, rfl⟩
        exact ⟨_, _, ⟨condition, hl, rfl⟩, ⟨otherwise, hr, rfl⟩, rfl⟩
    | .cast op none => simp [fold_ne_ok_of_untyped hmap, fold_ne_ok_of_untyped h]
    | .cast op (some ty) =>
      rw [fold_ok_of_cast hmap]
      simp only [fold_ok_of_cast h, ihleft]
      constructor
      -- The cast is an operand of what follows on both sides, the one the image of the other.
      · rintro ⟨_, ⟨operand, hl, rfl⟩, hrest⟩
        obtain ⟨inner, hinner, htree⟩ :=
          (ihrest (left_ne_nil_of_fold hl) (.cast operand op ty) tree).mp hrest
        exact ⟨inner, ⟨operand, hl, hinner⟩, htree⟩
      · rintro ⟨inner, ⟨operand, hl, hinner⟩, htree⟩
        refine ⟨_, ⟨operand, hl, rfl⟩, ?_⟩
        exact (ihrest (left_ne_nil_of_fold hl) (.cast operand op ty) tree).mpr
          ⟨inner, hinner, htree⟩

/-! ## Roles -/

def Node.withRole (n : Node) (role : Option String) : Node :=
  .node { n.head with role } n.children

section

variable (n : Node) (role : Option String) (children : List Site) (info : Info)

theorem errorExpr_withRole (code : Code) (message : String) :
    Expr.unshown <$> Adapter.errorExpr (n.withRole role) code message =
      Expr.unshown <$> Adapter.errorExpr n code message := by
  simp only [Adapter.errorExpr, Adapter.diagnostic, map_bind, map_pure, bind_assoc, pure_bind]
  rfl

theorem readInteger_withRole :
    Expr.unshown <$> readInteger (n.withRole role) info = Expr.unshown <$> readInteger n info := by
  have htext : (n.withRole role).text = n.text := rfl
  rw [readInteger, readInteger, htext]
  split
  · rfl
  · exact errorExpr_withRole n role _ _

theorem readFloat_withRole :
    Expr.unshown <$> readFloat (n.withRole role) info = Expr.unshown <$> readFloat n info := by
  have htext : (n.withRole role).text = n.text := rfl
  rw [readFloat, readFloat, htext]
  split
  · rfl
  · exact errorExpr_withRole n role _ _

theorem readMember_withRole :
    Expr.unshown <$> readMember (n.withRole role) children info =
      Expr.unshown <$> readMember n children info := by
  rw [readMember, readMember, map_bind, map_bind]
  refine bind_congr fun base => ?_
  cases base with
  | none => exact errorExpr_withRole n role _ _
  | some base => rfl

theorem readCall_withRole :
    Expr.unshown <$> readCall (n.withRole role) children info =
      Expr.unshown <$> readCall n children info := by
  rw [readCall, readCall]
  split
  · exact errorExpr_withRole n role _ _
  · simp only [map_bind]
    refine bind_congr fun function => bind_congr fun regular => bind_congr fun trailing =>
      bind_congr fun tables => ?_
    have hspan : (n.withRole role).head.span = n.head.span := rfl
    rw [hspan]
    split
    · rfl
    · exact errorExpr_withRole n role _ _

theorem readSubscript_withRole :
    Expr.unshown <$> readSubscript (n.withRole role) children info =
      Expr.unshown <$> readSubscript n children info := by
  rw [readSubscript, readSubscript]
  split
  · exact errorExpr_withRole n role _ _
  · simp only [map_bind]
    refine bind_congr fun base => bind_congr fun indices => ?_
    split
    · exact errorExpr_withRole n role _ _
    · rfl
    · rfl

theorem readUnary_withRole (build : Expr → Expr) :
    Expr.unshown <$> readUnary (n.withRole role) children build =
      Expr.unshown <$> readUnary n children build := by
  rw [readUnary, readUnary]
  split
  · rfl
  · exact errorExpr_withRole n role _ _

theorem readUnwrap_withRole (build : Expr → Expr) :
    Expr.unshown <$> readUnwrap (n.withRole role) children build =
      Expr.unshown <$> readUnwrap n children build := by
  rw [readUnwrap, readUnwrap]
  split
  · rfl
  · exact errorExpr_withRole n role _ _

theorem readBinary_withRole :
    Expr.unshown <$> readBinary (n.withRole role) children info =
      Expr.unshown <$> readBinary n children info := by
  rw [readBinary, readBinary]
  split
  · rfl
  · exact errorExpr_withRole n role _ _

theorem readTernary_withRole :
    Expr.unshown <$> readTernary (n.withRole role) children info =
      Expr.unshown <$> readTernary n children info := by
  rw [readTernary, readTernary]
  split
  · rfl
  · exact errorExpr_withRole n role _ _

theorem readCast_withRole :
    Expr.unshown <$> readCast (n.withRole role) children info =
      Expr.unshown <$> readCast n children info := by
  have htype : (n.withRole role).typeText? "type" = n.typeText? "type" := rfl
  rw [readCast, readCast, htype]
  split
  · rfl
  · exact errorExpr_withRole n role _ _

theorem readSequence_withRole :
    Expr.unshown <$> readSequence (n.withRole role) children =
      Expr.unshown <$> readSequence n children := by
  rw [readSequence, readSequence, map_bind, map_bind]
  refine bind_congr fun items => ?_
  split
  · rfl
  · exact errorExpr_withRole n role _ _

/-- The role of a node shows only in the snapshot of an error. -/
theorem readPlainExpr_withRole :
    Expr.unshown <$> readPlainExpr (n.withRole role) children info =
      Expr.unshown <$> readPlainExpr n children info := by
  obtain ⟨⟨kind, offset, length, text, _⟩, nodes⟩ := n
  cases kind
  case integerLiteral => exact readInteger_withRole _ role info
  case floatLiteral => exact readFloat_withRole _ role info
  case memberAccess => exact readMember_withRole _ role children info
  case call => exact readCall_withRole _ role children info
  case subscript => exact readSubscript_withRole _ role children info
  case prefixOperator | postfixOperator => exact readUnary_withRole _ role children _
  case optionalChain | forceUnwrap => exact readUnwrap_withRole _ role children _
  case binaryOperator => exact readBinary_withRole _ role children info
  case ternary => exact readTernary_withRole _ role children info
  case cast => exact readCast_withRole _ role children info
  case sequence => exact readSequence_withRole _ role children
  case stringLiteral | booleanLiteral | nilLiteral | interpolatedString | arrayLiteral
    | dictionaryLiteral | declRef | closure | typeExpr | tuple => rfl
  all_goals exact errorExpr_withRole _ role _ _

theorem readExpr_withRole :
    Expr.unshown <$> readExpr (n.withRole role) children = Expr.unshown <$> readExpr
    n children := by
  rw [readExpr, readExpr]
  simp only [map_bind]
  refine bind_congr fun info => bind_congr fun tables => ?_
  have hoffset : (n.withRole role).head.offset = n.head.offset := rfl
  rw [hoffset]
  split
  · rfl
  · exact readPlainExpr_withRole n role children info

theorem middleOperand_withRole (middle : Option Site) :
    Expr.unshown <$> middleOperand (n.withRole role) middle =
      Expr.unshown <$> middleOperand n middle := by
  cases middle with
  | none => exact errorExpr_withRole n role _ _
  | some middle => rfl

end

/-- Going on does not tell apart what it does not look at. -/
theorem bind_eq_of_map_eq {γ : Type} {f : α → β} {first second : Adapter α}
    (h : f <$> first = f <$> second) {next : α → Adapter γ} (rest : β → Adapter γ)
    (hnext : ∀ value, next value = rest (f value)) : first >>= next = second >>= next := by
  obtain rfl : next = fun value => rest (f value) := funext hnext
  rw [← bind_map_left f first rest, h, bind_map_left]

/-- Items without what their errors show. -/
def unshownItems (items : List (SequenceItem Expr)) : List (SequenceItem Expr) :=
  items.map (SequenceItem.map Expr.unshown)

theorem unshownItems_append (first second : List (SequenceItem Expr)) :
    unshownItems (first ++ second) = unshownItems first ++ unshownItems second :=
  List.map_append

theorem readOperators_withRole (n : Node) (role : Option String) (children : List Site) :
    unshownItems <$> readOperators (n.withRole role) children
      (readExpr (n.withRole role) children) =
      unshownItems <$> readOperators n children (readExpr n children) := by
  -- Wherever the node is an operand, it is read as an expression.
  have hoperand : unshownItems <$>
        (do return [.operand (.leaf (← readExpr (n.withRole role) children))] : Adapter _) =
      unshownItems <$> (do return [.operand (.leaf (← readExpr n children))] : Adapter _) := by
    simp only [map_bind, map_pure]
    exact bind_eq_of_map_eq (readExpr_withRole n role children)
      (fun value => pure [.operand (.leaf value)]) fun _ => rfl
  have hkind : (n.withRole role).kind = n.kind := rfl
  rw [readOperators, readOperators, hkind]
  split
  · split
    · rfl
    · exact hoperand
  · simp only [map_bind, map_pure]
    exact bind_eq_of_map_eq (middleOperand_withRole n role _)
      (fun value => pure [.operation (.ternary value)]) fun _ => rfl
  · split
    · rfl
    · exact hoperand
  · simp only [map_bind, map_pure, unshownItems_append]
    refine bind_congr fun condition => ?_
    exact bind_eq_of_map_eq (middleOperand_withRole n role _)
      (fun value => do
        let otherwise ← flattened (inRole? children "else")
        pure (unshownItems condition ++ .operation (.ternary value) :: unshownItems otherwise))
      fun _ => rfl
  · exact hoperand

/-! ## Gathering -/

theorem operators_withRole (n : Node) (role : Option String) :
    unshownItems <$> (n.withRole role).site.operators = unshownItems <$> n.site.operators := by
  rw [operators_site, operators_site]
  exact readOperators_withRole n role (n.children.map Node.site)

theorem expr_withRole (n : Node) (role : Option String) :
    Expr.unshown <$> (n.withRole role).site.expr = Expr.unshown <$> n.site.expr := by
  rw [expr_site, expr_site]
  exact readExpr_withRole n role (n.children.map Node.site)

theorem gatherOperators_append (first second : List Site) :
    gatherOperators (first ++ second) = do
      return (← gatherOperators first) ++ (← gatherOperators second) := by
  simp [gatherOperators]

theorem gatherOperators_singleton (site : Site) : gatherOperators [site] = site.operators := by
  simp [gatherOperators]

/-- The parts of some nodes of a sequence, without what errors show. -/
def shownParts (nodes : List Node) : Adapter (List (SequenceItem Expr)) :=
  unshownItems <$> gatherOperators (nodes.map Node.site)

theorem shownParts_append (first second : List Node) :
    shownParts (first ++ second) = do return (← shownParts first) ++ (← shownParts second) := by
  simp [shownParts, gatherOperators_append, unshownItems_append]

theorem shownParts_singleton (n : Node) : shownParts [n] = unshownItems <$> n.site.operators := by
  rw [shownParts, List.map_singleton, gatherOperators_singleton]

/-! ## Nestings -/

/-- The nodes that a side of a ternary node stands for: a sequence for its nodes, any other node for
    itself, whatever its role was. -/
inductive Node.StandsFor : Node → List Node → Prop where
  | sequence {side : Node} (h : side.kind = .sequence) : StandsFor side side.children
  | single {n : Node} (h : n.kind ≠ .sequence) (role : Option String) :
      StandsFor (n.withRole role) [n]

/-- A run of a sequence, with a ternary operator in it, is put into one ternary node. -/
inductive Nests : List Node → List Node → Prop where
  | run (before after : List Node) {op ternary condition middle otherwise : Node}
      {conditions otherwises : List Node} {role : Option String}
      (hop : op.kind = .ternaryOperator)
      (hmiddle : (op.child? "then" <|> op.children.head?) = some middle)
      (hternary : ternary.kind = .ternary)
      (hcondition : ternary.child? "condition" = some condition)
      (hthen : ternary.child? "then" = some (middle.withRole role))
      (hotherwise : ternary.child? "else" = some otherwise)
      (hconditions : condition.StandsFor conditions)
      (hotherwises : otherwise.StandsFor otherwises) :
      Nests (before ++ (conditions ++ op :: otherwises) ++ after) (before ++ ternary :: after)

theorem unshown_flattened {side : Node} {nodes : List Node} (h : side.StandsFor nodes) :
    unshownItems <$> flattened (some side.site) = shownParts nodes := by
  cases h with
  | sequence h =>
    rw [flattened, kind_site, if_pos h, children_site, shownParts]
  | @single n h role =>
    have hkind : (n.withRole role).kind ≠ .sequence := h
    rw [flattened, kind_site, if_neg hkind, operators_withRole, shownParts_singleton]

/-- A ternary operator as a node of a sequence, with its middle operand. -/
theorem unshown_operators_ternaryOperator {op middle : Node} (hop : op.kind = .ternaryOperator)
    (hmiddle : (op.child? "then" <|> op.children.head?) = some middle) :
    unshownItems <$> op.site.operators = do
      return [.operation (.ternary (← Expr.unshown <$> middle.site.expr))] := by
  have hsite : (inRole? (op.children.map Node.site) "then" <|> (op.children.map Node.site).head?) =
      some middle.site := by
    have hmap : ((op.child? "then").map Node.site <|> op.children.head?.map Node.site) =
        (op.child? "then" <|> op.children.head?).map Node.site := by
      cases op.child? "then" <;> rfl
    rw [inRole?_map_site, List.head?_map, hmap, hmiddle, Option.map_some]
  rw [operators_site, readOperators, hop, bind_map_left]
  simp only [hsite, middleOperand, map_bind, map_pure]
  rfl

/-- A ternary as a node of its own, with what stands on its sides. -/
theorem unshown_operators_ternary {ternary condition middle otherwise : Node}
    (hternary : ternary.kind = .ternary)
    (hcondition : ternary.child? "condition" = some condition)
    (hthen : ternary.child? "then" = some middle)
    (hotherwise : ternary.child? "else" = some otherwise) :
    unshownItems <$> ternary.site.operators = do
      let before ← unshownItems <$> flattened (some condition.site)
      let value ← Expr.unshown <$> middle.site.expr
      let after ← unshownItems <$> flattened (some otherwise.site)
      return before ++ .operation (.ternary value) :: after := by
  rw [operators_site, readOperators, hternary]
  simp only [inRole?_map_site, hcondition, hthen, hotherwise, Option.map_some, middleOperand,
    map_bind, map_pure, bind_map_left, unshownItems_append]
  rfl

theorem Nests.shownParts_eq {flat nested : List Node} (h : Nests flat nested) :
    shownParts flat = shownParts nested := by
  obtain ⟨before, after, hop, hmiddle, hternary, hcondition, hthen, hotherwise, hconditions,
    hotherwises⟩ := h
  rename_i op ternary condition middle otherwise conditions otherwises role
  have hrun : shownParts (conditions ++ op :: otherwises) = shownParts [ternary] := by
    rw [shownParts_singleton, unshown_operators_ternary hternary hcondition hthen hotherwise,
      unshown_flattened hconditions, unshown_flattened hotherwises, expr_withRole,
      shownParts_append, ← List.singleton_append, shownParts_append, shownParts_singleton,
      unshown_operators_ternaryOperator hop hmiddle]
    simp
  have hnested : before ++ ternary :: after = before ++ [ternary] ++ after := by simp
  rw [hnested, shownParts_append, shownParts_append before, hrun, ← shownParts_append,
    ← shownParts_append]

/-- However ternaries are nested, the parts of the sequence are the same. -/
theorem shownParts_of_eqvGen {first second : List Node} (h : Relation.EqvGen Nests first second) :
    shownParts first = shownParts second := by
  induction h with
  | rel first second h => exact h.shownParts_eq
  | refl first => rfl
  | symm first second _ ih => exact ih.symm
  | trans first second third _ _ ihfirst ihsecond => exact ihfirst.trans ihsecond

/-! ## Readable operands -/

/-- The operands of a tree, the middle ones of ternaries among them. -/
def OperatorTree.values : OperatorTree α → List α
  | leaf operand => [operand]
  | binary lhs _ _ rhs => lhs.values ++ rhs.values
  | ternary condition middle otherwise => condition.values ++ middle :: otherwise.values
  | cast operand _ _ => operand.values

def SequenceItem.values : SequenceItem α → List α
  | operand tree => tree.values
  | operation (.ternary middle) => [middle]
  | operation _ => []

/-- Whether all operands could be read. -/
def AllRead (values : List Expr) : Prop :=
  ∀ e ∈ values, e.isError = false

theorem OperatorTree.eq_of_map_unshown_eq {tree other : OperatorTree Expr}
    (h : tree.map Expr.unshown = other.map Expr.unshown) (hread : AllRead tree.values) :
    tree = other := by
  induction tree generalizing other with
  | leaf operand =>
    cases other <;> simp only [map, reduceCtorEq, leaf.injEq] at h
    rw [Expr.eq_of_unshown_eq h (hread operand (by simp [values]))]
  | binary lhs op group rhs ihl ihr =>
    cases other <;> simp only [map, reduceCtorEq, binary.injEq] at h
    obtain ⟨hl, rfl, rfl, hr⟩ := h
    rw [AllRead, values, List.forall_mem_append] at hread
    rw [ihl hl hread.1, ihr hr hread.2]
  | ternary condition middle otherwise ihl ihr =>
    cases other <;> simp only [map, reduceCtorEq, ternary.injEq] at h
    obtain ⟨hl, hm, hr⟩ := h
    rw [AllRead, values, List.forall_mem_append, List.forall_mem_cons] at hread
    rw [ihl hl hread.1, Expr.eq_of_unshown_eq hm hread.2.1, ihr hr hread.2.2]
  | cast operand op ty ih =>
    cases other <;> simp only [map, reduceCtorEq, cast.injEq] at h
    obtain ⟨ho, rfl, rfl⟩ := h
    rw [ih ho hread]

theorem SequenceItem.eq_of_map_unshown_eq {item other : SequenceItem Expr}
    (h : item.map Expr.unshown = other.map Expr.unshown) (hread : AllRead item.values) :
    item = other := by
  match item, other with
  | .operand tree, .operand inner =>
    simp only [map, operand.injEq] at h
    rw [OperatorTree.eq_of_map_unshown_eq h hread]
  | .operation (.ternary middle), .operation (.ternary inner) =>
    simp only [map, Operation.map, operation.injEq, Operation.ternary.injEq] at h
    rw [Expr.eq_of_unshown_eq h (hread middle (by simp [values]))]
  | .operation (.binary _ _), .operation (.binary _ _)
  | .operation (.cast _ _), .operation (.cast _ _) => simpa [map, Operation.map] using h
  | .operation (.binary _ _), .operation (.ternary _)
  | .operation (.binary _ _), .operation (.cast _ _)
  | .operation (.ternary _), .operation (.binary _ _)
  | .operation (.ternary _), .operation (.cast _ _)
  | .operation (.cast _ _), .operation (.binary _ _)
  | .operation (.cast _ _), .operation (.ternary _)
  | .operand _, .operation _ | .operation _, .operand _ => simp [map, Operation.map] at h

theorem eq_of_unshownItems_eq {items others : List (SequenceItem Expr)}
    (h : unshownItems items = unshownItems others)
    (hread : AllRead (items.flatMap SequenceItem.values)) :
    items = others := by
  induction items generalizing others with
  | nil => exact (List.map_eq_nil_iff.mp h.symm).symm
  | cons item rest ih =>
    obtain ⟨other, others, rfl⟩ | rfl : (∃ other more, others = other :: more) ∨ others = [] := by
      cases others <;> simp
    · rw [unshownItems, unshownItems, List.map_cons, List.map_cons, List.cons.injEq] at h
      rw [AllRead, List.flatMap_cons, List.forall_mem_append] at hread
      rw [SequenceItem.eq_of_map_unshown_eq h.1 hread.1, ih h.2 hread.2]
    · simp [unshownItems] at h

/-! ## Reading alike -/

theorem Exchange.run_bind (e : Exchange α) (next : α → Exchange β) (cache : OriginCache) :
    (e >>= next).run cache = (next (e.run cache).1).run (e.run cache).2 := by
  induction e generalizing cache with
  | done value => rfl
  | record name origin rest ih => exact ih () (cache.record name origin)
  | ask name rest ih => exact ih (cache.isLibrary name) cache

/-- What a reading comes to against side tables, from a state and recorded origins on. -/
def Adapter.outcome (reading : Adapter α) (tables : SideTables) (before : AdapterState)
    (cache : OriginCache) : (α × AdapterState) × OriginCache :=
  ((reading.run tables).run before).run cache

theorem Adapter.outcome_bind (reading : Adapter α) (next : α → Adapter β) (tables : SideTables)
    (before : AdapterState) (cache : OriginCache) :
    (reading >>= next).outcome tables before cache =
      let found := reading.outcome tables before cache
      (next found.1.1).outcome tables found.1.2 found.2 :=
  Exchange.run_bind _ _ cache

theorem Adapter.outcome_map (f : α → β) (reading : Adapter α) (tables : SideTables)
    (before : AdapterState) (cache : OriginCache) :
    (f <$> reading).outcome tables before cache =
      let found := reading.outcome tables before cache
      ((f found.1.1, found.1.2), found.2) := by
  rw [map_eq_pure_bind, outcome_bind]
  rfl

/-- The expression of a sequence with these items, without what errors show. -/
def unshownExpr? (types : TypeTable) (items : List (SequenceItem Expr)) : Option Expr :=
  (fold items).toOption.map fun tree => (tree.map Expr.unshown).toExpr types

theorem unshownExpr?_eq (types : TypeTable) (items : List (SequenceItem Expr)) :
    unshownExpr? types items =
      (fold (unshownItems items)).toOption.map (OperatorTree.toExpr types) := by
  have hiff := fold_map_ok_iff Expr.unshown items
  rw [unshownExpr?, unshownItems]
  cases hfold : fold items with
  | ok tree =>
    rw [(hiff (tree.map Expr.unshown)).mpr ⟨tree, hfold, rfl⟩]
    rfl
  | error e =>
    cases hmap : fold (items.map (SequenceItem.map Expr.unshown)) with
    | error _ => rfl
    | ok tree =>
      obtain ⟨inner, hinner, -⟩ := (hiff tree).mp hmap
      rw [hfold] at hinner
      cases hinner

/-- That two lists of nodes are the same to the sequence they stand in. -/
structure ReadAlike (first second : List Node) : Prop where
  /-- The same items, with the same warnings and questions, but for the subtrees that errors
  show. -/
  items : unshownItems <$> gatherOperators (first.map Node.site) =
    unshownItems <$> gatherOperators (second.map Node.site)
  /-- The same expression, or none, but for the subtrees that errors show. -/
  expression (types : TypeTable) :
    unshownExpr? types <$> gatherOperators (first.map Node.site) =
      unshownExpr? types <$> gatherOperators (second.map Node.site)
  /-- Exactly the same, if the operands can be read, and as an expression if it can be folded. -/
  exactly (tables : SideTables) (before : AdapterState) (cache : OriginCache) :
    let found := (gatherOperators (first.map Node.site)).outcome tables before cache
    AllRead (found.1.1.flatMap SequenceItem.values) →
      (gatherOperators (second.map Node.site)).outcome tables before cache = found ∧
        ∀ n other tree, fold found.1.1 = .ok tree →
          (readSequence n (first.map Node.site)).outcome tables before cache =
            (readSequence other (second.map Node.site)).outcome tables before cache

/-- However ternaries are nested, a sequence is read alike. -/
theorem readAlike_of_eqvGen {flat nested : List Node} (h : Relation.EqvGen Nests flat nested) :
    ReadAlike flat nested := by
  have hitems := shownParts_of_eqvGen h
  refine ⟨hitems, fun types => ?_, fun tables before cache => ?_⟩
  · have hexpression := congrArg
      (Functor.map fun items => (fold items).toOption.map (OperatorTree.toExpr types)) hitems
    simp only [shownParts, Functor.map_map, ← unshownExpr?_eq] at hexpression
    exact hexpression
  · intro found hread
    have houtcome := congrArg (Adapter.outcome · tables before cache) hitems
    simp only [shownParts, Adapter.outcome_map, Prod.mk.injEq] at houtcome
    obtain ⟨⟨hvalue, hstate⟩, hcache⟩ := houtcome
    have hsame : (gatherOperators (nested.map Node.site)).outcome tables before cache = found := by
      refine Prod.ext (Prod.ext ?_ hstate.symm) hcache.symm
      exact (eq_of_unshownItems_eq hvalue hread).symm
    refine ⟨hsame, fun n other tree htree => ?_⟩
    rw [readSequence, readSequence, Adapter.outcome_bind, Adapter.outcome_bind, hsame]
    simp only [found] at htree ⊢
    rw [htree]

def nameNode (text : String) (offset : Nat) : Node :=
  .node { kind := .declRef, text := some text, offset, length := 1 } []

def operatorNode (text : String) (offset : Nat) : Node :=
  .node { kind := .binaryOperator, text := some text, offset, length := 1 } []

/-- `? middle :` as an operator of a sequence. -/
def choiceNode (middle : Node) (offset : Nat) : Node :=
  .node { kind := .ternaryOperator, offset, length := 5 } [middle.withRole (some "then")]

/-- A ternary that holds its parts. -/
def ternaryNode (condition middle otherwise : Node) (offset length : Nat) : Node :=
  .node { kind := .ternary, offset, length }
    [condition.withRole (some "condition"), middle.withRole (some "then"),
      otherwise.withRole (some "else")]

def sequenceNode (nodes : List Node) (offset length : Nat) : Node :=
  .node { kind := .sequence, offset, length } nodes

/-- `x = a ~ b ? c : d ? e : f`, once flat, once with the second ternary inside of the first. -/
theorem readAlike_nestedChoice :
    let condition := [nameNode "a" 4, operatorNode "~" 6, nameNode "b" 8]
    let start := [nameNode "x" 0, operatorNode "=" 2]
    let choice := choiceNode (nameNode "c" 12) 10
    let flat := start ++ condition ++
      [choice, nameNode "d" 18, choiceNode (nameNode "e" 22) 20, nameNode "f" 26]
    let second := ternaryNode (nameNode "d" 18) (nameNode "e" 22) (nameNode "f" 26) 18 9
    let nested := start ++ [ternaryNode (sequenceNode condition 4 5) (nameNode "c" 12) second 4 23]
    Relation.EqvGen Nests flat nested ∧ ReadAlike flat nested := by
  intro condition start choice flat second nested
  have hinner : Nests flat (start ++ condition ++ [choice] ++ [second]) :=
    .run (start ++ condition ++ [choice]) [] rfl rfl rfl rfl rfl rfl
      (.single (n := nameNode "d" 18) (by decide) _) (.single (n := nameNode "f" 26) (by decide) _)
  have houter : Nests (start ++ (condition ++ choice :: [second]) ++ []) nested :=
    .run start [] rfl rfl rfl rfl rfl rfl (.sequence rfl) (.single (n := second) (by decide) _)
  have h : Relation.EqvGen Nests flat nested := .trans _ _ _ (.rel _ _ hinner) (.rel _ _ houter)
  exact ⟨h, readAlike_of_eqvGen h⟩

/-- A sequence that is a single operand of the run is taken apart when it becomes a side: `x * (a +
    b)` before the question mark turns into `x * a + b`.  And an operand that cannot be read shows
    the role that it has as a side. -/
theorem gatherOperators_sides :
    let sum := sequenceNode [nameNode "a" 4, operatorNode "+" 6, nameNode "b" 8] 4 5
    let choice := choiceNode (nameNode "c" 12) 10
    let multiplied := [nameNode "x" 0, operatorNode "*" 2]
    let nested := multiplied ++ [ternaryNode sum (nameNode "c" 12) (nameNode "d" 16) 4 13]
    let unread := Node.node { kind := .unknown, offset := 4, length := 5 } []
    let parts (nodes : List Node) :=
      ((gatherOperators (nodes.map Node.site)).outcome {} {} .empty).1.1
    (parts (multiplied ++ [sum, choice, nameNode "d" 16])).length = 5 ∧
      (parts nested).length = 7 ∧
      ∃ flat nested span,
        (parts [unread, choice, nameNode "d" 16]).head? =
        some (.operand (.leaf (.error flat span))) ∧
        (parts [ternaryNode unread (nameNode "c" 12) (nameNode "d" 16) 4 13]).head? =
          some (.operand (.leaf (.error nested span))) ∧
        flat.snapshot = some "Unknown @4+5\n" ∧
        nested.snapshot = some "Unknown [condition] @4+5\n" := by
  intro sum choice multiplied nested unread parts
  have hflat : (parts (multiplied ++ [sum, choice, nameNode "d" 16])).length = 5 := by
    decide +kernel
  have hnested : (parts nested).length = 7 := by decide +kernel
  refine ⟨hflat, hnested, _, _, _, rfl, rfl, ?_, ?_⟩
  all_goals decide +kernel

end Source

end Ferry
