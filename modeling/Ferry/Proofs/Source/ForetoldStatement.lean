/-
  Ferry.Proofs.Source.ForetoldStatement

  Statements come true as forecast.
-/
import Ferry.Proofs.Source.ForetoldPattern

namespace Ferry.Source

open Adapter

variable {tables : SideTables} {n m : Node} {subject : Expr}

/-! ## Clauses -/

section

variable {bindings : List PatternVariable} {bound : List BoundOutline}

theorem rel_find? (h : List.Forall₂ (BoundAs subject) bindings bound) (name : String) :
    (bindings.find? (·.name == name) = none ∧ bound.find? (·.name == name) = none) ∨
      ∃ found outline, bindings.find? (·.name == name) = some found ∧
        bound.find? (·.name == name) = some outline ∧ BoundAs subject found outline := by
  induction h with
  | nil => exact .inl ⟨rfl, rfl⟩
  | cons hfirst _ ih =>
    rw [List.find?_cons, List.find?_cons, hfirst.name]
    split
    · exact .inr ⟨_, _, rfl, rfl, hfirst⟩
    · exact ih

variable (h : List.Forall₂ (BoundAs subject) bindings bound)

include h

theorem errors_projections (called : Bool) (name : String) (isLibrary isImplicit : Bool)
    (info : Info) (load : String → Nat) :
    ((projections bindings).expr called (.name name isLibrary isImplicit info)).errors load =
      ((bound.reverse.find? (·.name == name)).map fun bound => bound.errors load).getD
      (load name) := by
  obtain ⟨hnone, hbound⟩ | ⟨found, outline, hfound, hbound, hsame⟩ :=
    rel_find? (List.forall₂_reverse_iff.mpr h) name
  · simp [projections, hnone, hbound]
  · simp [projections, hfound, hbound, hsame.errors]

/-- What a clause has for names has what they are bound to instead. -/
theorem errors_substitute (e : Expr) :
    (substitute bindings e).errors = (e.outline.substituted bound).errors := by
  funext load
  refine Transform.errors_onFragment (t := projections bindings) (by simp [projections])
    (by simp [projections]) ?_ (fun _ _ => rfl) (fun _ => rfl) {} (.expr false e) none
  intro called e φ hparts
  cases e with
  | name name isLibrary isImplicit info =>
    rw [Expr.errors_name]
    exact errors_projections h called name isLibrary isImplicit info load
  | _ => exact Expr.errors_mapParts hparts rfl

theorem isError_substitute (e : Expr) :
    (substitute bindings e).isError = (e.outline.substituted bound).isError := by
  rw [substitute, Transform.onExpr_eq_mapParts]
  cases e with
  | name name isLibrary isImplicit info =>
    obtain ⟨hnone, hbound⟩ | ⟨found, outline, hfound, hbound, hsame⟩ :=
      rel_find? (List.forall₂_reverse_iff.mpr h) name
    · simp [projections, hnone, hbound, Outline.substituted, Expr.outline, Expr.plainName?,
        Expr.mapParts]
    · simp [projections, hfound, hbound, hsame.isError, Outline.substituted, Expr.outline,
        Expr.plainName?, Expr.mapParts]
  | _ => rfl

end

/-! ## Items of a case -/

/-- What is looked at in a pattern of a case. -/
def Expr.shown (e : Expr) : Count × Bool :=
  (e.errors, e.isError)

def Outline.shown (outline : Outline) : Count × Bool :=
  (outline.errors, outline.isError)

inductive ItemAs (subject : Expr) : CaseItem → Forecast.Item → Prop where
  | blank : ItemAs subject .blank .blank
  | refused (diagnostic : Diagnostic) (span : Option Span) :
      ItemAs subject (.refused (.error diagnostic span)) .refused
  | matched {test : Option Expr} {outline : Option Outline} {found : PatternMatch}
      {forecast : PatternOutline} (htest : test.map Expr.shown = outline.map Outline.shown)
      (hfound : MatchAs subject found forecast) :
      ItemAs subject (.matched test found) (.matched outline forecast)

theorem outline_asTest (subject value : Expr) :
    (asTest subject value).outline = Forecast.asTest subject.outline value.outline := by
  have hfalse : value.isTest = false → (plainBinary subject "==" value).outline =
      Forecast.asTest subject.outline value.outline := by
    intro htest
    rw [Forecast.asTest, show value.outline.isTest = false from htest, outline_plainBinary]
    rfl
  rw [asTest]
  split
  next op _ _ hvalue =>
    split
    next hop =>
      rw [Forecast.asTest, show value.outline.isTest = true from ?_]
      · rfl
      · show value.isTest = true
        rw [Expr.isTest, hvalue]
        exact hop
    next hop =>
      refine hfalse ?_
      rw [Expr.isTest, hvalue]
      exact Bool.not_eq_true _ ▸ hop
  next hvalue =>
    refine hfalse ?_
    rw [Expr.isTest]
    split
    next op _ _ heq => exact absurd heq (hvalue _ _ _ _)
    next => rfl

theorem shown_itemTest {value clause : Option Expr} {clauseOutline : Option Outline}
    (h : clause.map Expr.shown = clauseOutline.map Outline.shown) :
    (itemTest subject value clause).map Expr.shown =
      (Forecast.itemTest subject.outline (value.map Expr.outline) clauseOutline).map
      Outline.shown := by
  match value, clause, clauseOutline with
  | value, none, none => cases value <;> rfl
  | none, some clause, some outline => exact h
  | some value, some clause, some outline =>
    have herrors : clause.errors = outline.errors := congrArg Prod.fst (Option.some.inj h)
    have htest : (plainBinary (asTest subject value) "&&" clause).errors =
        (Forecast.asTest subject.outline value.outline).errors + outline.errors := by
      rw [← outline_asTest, ← herrors]
      exact funext fun load => Expr.errors_binary load ..
    exact congrArg some (Prod.ext htest rfl)

section

variable {items : List CaseItem} {forecasts : List Forecast.Item}

theorem ItemAs.isOpen_eq {item : CaseItem} {forecast : Forecast.Item}
    (h : ItemAs subject item forecast) : item.isOpen = forecast.isOpen := by
  cases h with
  | blank => rfl
  | refused => rfl
  | matched htest =>
    rw [CaseItem.isOpen, Forecast.Item.isOpen, ← Option.isNone_map (f := Expr.shown), htest,
      Option.isNone_map]

theorem ItemAs.pattern?_eq {item : CaseItem} {forecast : Forecast.Item}
    (h : ItemAs subject item forecast) :
    item.pattern?.map Expr.shown = forecast.pattern?.map Outline.shown := by
  cases h with
  | blank => rfl
  | refused => rfl
  | matched htest => exact htest

variable (h : List.Forall₂ (ItemAs subject) items forecasts)

include h

theorem shown_filterMap_pattern? :
    (items.filterMap CaseItem.pattern?).map Expr.shown =
      (forecasts.filterMap Forecast.Item.pattern?).map Outline.shown := by
  rw [List.map_filterMap, List.map_filterMap]
  induction h with
  | nil => rfl
  | cons hfirst _ ih => rw [List.filterMap_cons, List.filterMap_cons, hfirst.pattern?_eq, ih]

theorem any_isOpen_eq : items.any CaseItem.isOpen = forecasts.any Forecast.Item.isOpen := by
  induction h with
  | nil => rfl
  | cons hfirst _ ih => rw [List.any_cons, List.any_cons, hfirst.isOpen_eq, ih]

theorem errors_casePatterns (isDefault : Bool) (load : String → Nat) :
    partErrors ((casePatterns isDefault items).map .value) load =
      ((Forecast.casePatterns isDefault forecasts).map Outline.errors).sum load := by
  have hempty : items.isEmpty = forecasts.isEmpty := by
    cases h <;> rfl
  have hpatterns := shown_filterMap_pattern? h
  suffices hshown : (casePatterns isDefault items).map Expr.shown =
      (Forecast.casePatterns isDefault forecasts).map Outline.shown by
    have hfirst := congrArg (List.map fun shown => shown.1 load) hshown
    rw [List.map_map, List.map_map] at hfirst
    rw [partErrors_map, Pi.list_sum_apply, List.map_map]
    exact congrArg List.sum hfirst
  rw [casePatterns, Forecast.casePatterns, hempty, any_isOpen_eq h]
  split
  · have hfilter := congrArg (List.filter Prod.snd) hpatterns
    rw [List.filter_map, List.filter_map] at hfilter
    exact hfilter
  · exact hpatterns

theorem forall₂_match? :
    List.Forall₂ (MatchAs subject) (items.filterMap CaseItem.match?)
      (forecasts.filterMap Forecast.Item.match?) := by
  induction h with
  | nil => exact .nil
  | cons hfirst _ ih =>
    cases hfirst with
    | blank => exact ih
    | refused => exact ih
    | matched _ hfound => exact .cons hfound ih

end

theorem bindingShape_eq {found : PatternMatch} {outline : PatternOutline}
    (h : MatchAs subject found outline) :
    bindingShape found =
      (outline.bound.map BoundOutline.shape).map
      (Prod.map id (Prod.map (subject.text ++ ·) id)) := by
  obtain ⟨_, bindings⟩ := found
  obtain ⟨_, bound⟩ := outline
  have hbound : List.Forall₂ (BoundAs subject) bindings bound := h.bound
  rw [bindingShape, List.map_map]
  clear h
  induction hbound with
  | nil => rfl
  | cons hfirst _ ih =>
    rw [List.map_cons, List.map_cons, ih, hfirst.name, hfirst.text, hfirst.isLet]
    rfl

/-- Names are bound alike whatever the subject is. -/
theorem isPerm_bindingShape {found other : PatternMatch} {outline inner : PatternOutline}
    (h : MatchAs subject found outline) (hother : MatchAs subject other inner) :
    (bindingShape other).isPerm (bindingShape found) =
      (inner.bound.map BoundOutline.shape).isPerm (outline.bound.map BoundOutline.shape) := by
  have hinjective : Function.Injective
      (Prod.map id (Prod.map (subject.text ++ ·) id) : String × String × Bool → _) := by
    refine Function.injective_id.prodMap (Function.Injective.prodMap ?_ Function.injective_id)
    intro path other heq
    exact (String.append_right_inj _).mp heq
  rw [bindingShape_eq h, bindingShape_eq hother, Bool.eq_iff_iff, List.isPerm_iff, List.isPerm_iff,
    List.map_perm_map_iff hinjective]

theorem bindAlike_eq {found : List PatternMatch} {outlines : List PatternOutline}
    (h : List.Forall₂ (MatchAs subject) found outlines) :
    bindAlike found = Forecast.bindAlike outlines := by
  cases h with
  | nil => rfl
  | cons hfirst hothers =>
    rw [bindAlike, Forecast.bindAlike]
    induction hothers with
    | nil => rfl
    | cons hother _ ih => rw [List.all_cons, List.all_cons, isPerm_bindingShape hfirst hother, ih]

theorem errors_declarations {found : PatternMatch} {outline : PatternOutline}
    (h : MatchAs subject found outline) (load : String → Nat) :
    stmtErrors found.declarations load = outline.boundErrors load := by
  obtain ⟨_, bindings⟩ := found
  obtain ⟨_, bound⟩ := outline
  have hbound : List.Forall₂ (BoundAs subject) bindings bound := h.bound
  clear h
  rw [PatternMatch.declarations, PatternOutline.boundErrors, stmtErrors_eq_sum, List.map_map]
  induction hbound with
  | nil => rfl
  | cons hfirst _ ih =>
    rw [List.map_cons, List.sum_cons, ih, List.map_cons, List.sum_cons, Pi.add_apply,
      ← hfirst.errors]
    refine congrArg (· + _) ((Stmt.errors_eq _).trans ?_)
    simp [Stmt.parts, Variable.parts, Variable.simple]

theorem errors_head_declarations {found : List PatternMatch} {outlines : List PatternOutline}
    (h : List.Forall₂ (MatchAs subject) found outlines) (load : String → Nat) :
    stmtErrors ((found.head?.map PatternMatch.declarations).getD []) load =
      outlines.head?.elim 0 PatternOutline.boundErrors load := by
  cases h with
  | nil => rfl
  | cons hfirst _ => exact errors_declarations hfirst load

/-! ## Switches -/

section

variable (h : ForetoldBelow tables n)

include h

theorem foretold_readCaseItem (subject : Expr) :
    Ensures tables (readCaseItem subject n.site)
      (ItemAs subject · (Forecast.caseItem subject.outline (n.forecast tables))) := by
  rw [readCaseItem, child?_site, child?_site, Forecast.caseItem, children_forecast, firstIn_map,
    firstIn_map]
  cases hpattern : n.child? "pattern" with
  | none => exact .pure .blank
  | some pattern =>
    refine ((h pattern (isBelow_of_child? hpattern)).pattern subject .switchCase true).bind ?_
    intro found hfound
    dsimp only [Option.map_some]
    generalize (pattern.forecast tables).pattern subject.outline .switchCase true =
      forecast at hfound ⊢
    cases hfound with
    | refused diagnostic => exact (ensures_place _).bind fun span _ => .pure (.refused diagnostic _)
    | found hmatch =>
      have hclause := foretold_valueIn h "where"
      rw [inRole?_map_site, firstIn_map] at hclause
      refine hclause.bind fun clause hclause => .pure (.matched ?_ hmatch)
      rw [← hclause, ← hmatch.condition]
      refine shown_itemTest ?_
      cases clause with
      | none => rfl
      | some clause =>
        exact congrArg some (Prod.ext (errors_substitute hmatch.bound clause)
          (isError_substitute hmatch.bound clause))

theorem foretold_readSwitchCase (subject : Expr) :
    Ensures tables (readSwitchCase subject n.site) fun c => ∀ load,
      partErrors c.parts load = Forecast.switchCase subject.outline (n.forecast tables) load := by
  rw [readSwitchCase, children_site, ofKind_map_site]
  refine (ensures_mapM_forall₂ fun item hitem =>
    foretold_readCaseItem (h.of_mem (mem_children_of_mem_childrenOf hitem)) subject).bind ?_
  intro items hitems
  refine (ensures_place _).bind fun span _ => ?_
  have hfound := forall₂_match? hitems
  rw [Site.text, node_site, bindAlike_eq hfound, Forecast.switchCase,
    children_forecast, node_forecast, those_map, List.map_map]
  simp only [Function.comp_def]
  split
  next =>
    refine (foretold_blockIn h "body").bind fun body hbody => .pure fun load => ?_
    rw [SwitchCase.parts, partErrors_append, errors_casePatterns hitems, ← hbody,
      partErrors_cons, errors_body, stmtErrors_append, errors_head_declarations hfound]
    rfl
  next =>
    refine (ensures_errorStmt _ _ _).bind fun clash hclash => .pure fun load => ?_
    rw [SwitchCase.parts, partErrors_append, errors_casePatterns hitems, partErrors_cons,
      errors_body, stmtErrors_cons, hclash]
    rfl

theorem foretold_readSwitch :
    Ensures tables (readSwitch n n.childSites)
      (·.errors = Forecast.switch (n.childForecasts tables)) := by
  rw [readSwitch, inRole?_map_site, Forecast.switch, firstIn_map]
  cases hm : n.child? "subject" with
  | none => exact ensures_errorStmt n _ _
  | some found =>
    refine (foretold_exprIn h hm).bind fun subject hsubject => ?_
    rw [ofKind_map_site, those_map]
    refine (ensures_mapM_sum fun c hc => (foretold_readSwitchCase
      (h.of_mem (mem_children_of_mem_childrenOf hc)) subject).mono fun _ => funext).bind
      fun cases hcases => ?_
    refine (ensures_place _).bind fun span _ => .pure (funext fun load => ?_)
    rw [Option.map_some, Option.elim_some, Forecast.exprErrors, ← hsubject, Pi.add_apply, ← hcases,
      Stmt.errors_eq]
    simp [Stmt.parts, Expr.outline]

/-! ## Conditions -/

omit h in
/-- Errors of what a condition is read as: the conditions it stands for and the names it binds. -/
def conditionErrors (found : List Condition × List Stmt) : Count :=
  partErrors (found.1.flatMap Condition.parts) + stmtErrors found.2

theorem foretold_readTest (hn : Foretold tables n) :
    Ensures tables (readTest n.site) (·.errors = (n.forecast tables).test) := by
  rw [readTest, kind_site, Forecast.test, node_forecast, children_site, children_forecast,
    List.head?_map, List.head?_map]
  cases n.kind
  case condition =>
    cases hm : n.children.head? with
    | none => exact (ensures_errorExpr _ _ _).mono fun _ => congrArg Outline.errors
    | some inner => exact (h inner (isBelow_of_head? hm)).exprErrors
  all_goals exact hn.exprErrors

theorem foretold_readOptionalBinding :
    Ensures tables (readOptionalBinding n.site) fun condition => ∀ load,
      partErrors condition.parts load =
        (Forecast.firstIn (n.forecast tables).children "initializer").elim (fun load => load n.text)
          Forecast.exprErrors load := by
  rw [readOptionalBinding, child?_site, children_forecast, firstIn_map]
  refine (ensures_place _).bind fun span _ => ?_
  have hbinding : ∀ (initializer : Expr) load, partErrors (Condition.binding
      { Variable.simple n.site.text (n.site.node.typeText? "type") (some initializer)
        (!n.site.node.hasModifier "var") with span := some span }).parts load =
      initializer.errors load := by
    intro initializer load
    simp [Condition.parts, Variable.parts, Variable.simple]
  cases hm : n.child? "initializer" with
  | none =>
    rw [Option.map_none]
    dsimp only
    rw [pure_bind]
    refine .pure fun load => (hbinding _ load).trans ?_
    rw [Expr.errors_name, Site.text, node_site]
    rfl
  | some value =>
    refine (foretold_exprIn h hm).bind fun e he => .pure fun load => (hbinding e load).trans ?_
    rw [Option.map_some, Option.elim_some, Forecast.exprErrors, ← he]
    rfl

theorem foretold_readCaseCondition :
    Ensures tables (readCaseCondition n.site)
      (conditionErrors · = Forecast.caseCondition (n.forecast tables)) := by
  rw [readCaseCondition, child?_site, child?_site, Forecast.caseCondition, children_forecast,
    firstIn_map, firstIn_map]
  cases hpattern : n.child? "pattern" <;> cases hvalue : n.child? "initializer"
  case some.some pattern value =>
    refine (foretold_exprIn h hvalue).bind fun subject hsubject => ?_
    refine ((h pattern (isBelow_of_child? hpattern)).pattern subject .condition true).bind ?_
    intro found hfound
    rw [Option.map_some, Option.map_some]
    dsimp only
    rw [← hsubject]
    generalize (pattern.forecast tables).pattern subject.outline .condition true =
      forecast at hfound ⊢
    cases hfound with
    | refused diagnostic => exact (ensures_place _).bind fun span _ => .pure rfl
    | @found found outline hmatch =>
      refine .pure (funext fun load => ?_)
      rw [conditionErrors, Option.elim_some, PatternOutline.errors,
        ← hmatch.condition, Pi.add_apply, Pi.add_apply, errors_declarations hmatch]
      cases found.condition <;> rfl
  all_goals
    refine (ensures_errorExpr _ _ _).bind fun missing hmissing => .pure ?_
    exact congrArg Outline.errors hmissing

theorem foretold_readCondition (hn : Foretold tables n) :
    Ensures tables (readCondition n.site) (conditionErrors · = (n.forecast tables).condition) := by
  rw [readCondition, kind_site, Forecast.condition, node_forecast]
  cases n.kind
  case optionalBinding =>
    refine (foretold_readOptionalBinding h).bind fun condition hcondition =>
      .pure (funext fun load => ?_)
    rw [conditionErrors, List.flatMap_singleton, Pi.add_apply, hcondition]
    rfl
  case caseCondition => exact foretold_readCaseCondition h
  all_goals exact (foretold_readTest h hn).bind fun test htest => .pure htest

theorem foretold_readConditions :
    Ensures tables (readConditions n.childSites)
      (conditionErrors · = Forecast.conditions (n.childForecasts tables)) := by
  rw [readConditions, List.filter_map, Forecast.conditions, List.filter_map]
  simp only [Function.comp_def, Site.head, node_site, node_forecast]
  refine (ensures_mapM_sum fun m hm => foretold_readCondition (h.of_mem (List.mem_of_mem_filter hm))
    (h m (.child (List.mem_of_mem_filter hm)))).bind fun found hfound =>
    .pure (funext fun load => ?_)
  rw [← hfound]
  clear hfound
  induction found with
  | nil => rfl
  | cons first rest ih =>
    rw [List.map_cons (f := fun found => conditionErrors found load), List.sum_cons, ← ih]
    simp only [conditionErrors, List.map_cons, List.flatten_cons, List.flatMap_append, Pi.add_apply,
      partErrors_append, stmtErrors_append]
    omega

theorem foretold_readElse {role : String} :
    Ensures tables ((inRole? n.childSites role).mapM readElse) fun otherwise => ∀ load,
      partErrors (otherwise.toList.map .body) load =
        (Forecast.firstIn (n.childForecasts tables) role).elim 0 Forecast.otherwise
          load := by
  rw [inRole?_map_site, firstIn_map]
  cases hm : n.child? role with
  | none => exact .pure fun _ => rfl
  | some m =>
    have hmem := List.mem_of_find?_eq_some hm
    have helse : Ensures tables (readElse m.site)
        (stmtErrors · = (m.forecast tables).otherwise) := by
      rw [readElse, kind_site, Forecast.otherwise, node_forecast]
      split
      next hkind =>
        rw [if_pos hkind]
        exact (h m (.child hmem)).conditional.bind fun s hs => .pure hs
      next hkind =>
        rw [if_neg hkind]
        exact foretold_block (h m (.child hmem)) (h.of_mem hmem)
    refine helse.map fun otherwise hotherwise load => ?_
    rw [Option.map_some, Option.elim_some, ← hotherwise]
    rfl

theorem foretold_readIf :
    Ensures tables (readIf n n.childSites)
      (·.errors = Forecast.conditionalOf (n.childForecasts tables)) := by
  refine (foretold_readConditions h).bind fun ⟨conditions, bound⟩ hconditions => ?_
  refine (foretold_blockIn h "then").bind fun body hbody => ?_
  refine (foretold_readElse h).bind fun otherwise hotherwise => ?_
  refine (ensures_place _).bind fun span _ => .pure (funext fun load => ?_)
  rw [Forecast.conditionalOf, Pi.add_apply, Pi.add_apply, ← hconditions, ← hbody, ← hotherwise,
    conditionErrors, Pi.add_apply, Stmt.errors_eq]
  simp only [Stmt.ownErrors, Stmt.parts, partErrors_append, partErrors_cons, errors_body,
    stmtErrors_append]
  omega

theorem foretold_readGuard :
    Ensures tables (readGuard n n.childSites) (stmtErrors · =
      Forecast.conditions (n.childForecasts tables) +
        Forecast.blockIn (n.childForecasts tables) "body") := by
  refine (foretold_readConditions h).bind fun ⟨conditions, bound⟩ hconditions => ?_
  refine (foretold_blockIn h "body").bind fun body hbody => ?_
  refine (ensures_place _).bind fun span _ => .pure (funext fun load => ?_)
  rw [Pi.add_apply, ← hconditions, ← hbody, conditionErrors, Pi.add_apply, stmtErrors_cons,
    Stmt.errors_eq]
  simp only [Stmt.ownErrors, Stmt.parts, partErrors_append, partErrors_cons, errors_body,
    Option.toList_none, List.map_nil, partErrors_nil]
  omega

/-! ## Loops and blocks -/

theorem foretold_guardedBody {body : List Stmt} :
    Ensures tables (guardedBody body (inRole? n.childSites "where")) fun guarded => ∀ load,
      stmtErrors guarded load =
        Forecast.valueIn (n.childForecasts tables) "where" load + stmtErrors body load := by
  rw [inRole?_map_site, Forecast.valueIn, firstIn_map]
  cases hm : n.child? "where" with
  | none => exact .pure fun load => (Nat.zero_add _).symm
  | some clause =>
    refine (foretold_exprIn h hm).bind fun test htest => .pure fun load => ?_
    rw [Option.map_some, Option.elim_some, Forecast.exprErrors, ← htest,
      stmtErrors_cons, Stmt.errors_eq]
    simp [Stmt.parts, Condition.parts, Expr.outline]

theorem foretold_readForIn :
    Ensures tables (readForIn n n.childSites)
      (·.errors = Forecast.forIn (n.childForecasts tables)) := by
  rw [readForIn, inRole?_map_site, inRole?_map_site, Forecast.forIn, firstIn_map, firstIn_map]
  cases hpattern : n.child? "pattern" <;> cases hcollection : n.child? "collection"
  case some.some pattern collection =>
    refine (h pattern (isBelow_of_child? hpattern)).loopVariable.bind fun item hitem => ?_
    rw [Option.map_some, Option.map_some]
    dsimp only
    rw [← hitem]
    cases item with
    | none => exact ensures_errorStmt _ _ _
    | some item =>
      refine (foretold_exprIn h hcollection).bind fun values hvalues => ?_
      refine (foretold_blockIn h "body").bind fun body hbody => ?_
      refine (foretold_guardedBody h).bind fun guarded hguarded => ?_
      refine (ensures_place _).bind fun span _ => .pure (funext fun load => ?_)
      rw [Option.map_some, Option.elim_some, ← hbody, Forecast.exprErrors,
        ← hvalues, Stmt.errors_eq]
      simp [Stmt.parts, hguarded, Expr.outline, Nat.add_assoc]
  all_goals exact ensures_errorStmt n _ _

theorem foretold_readWhile :
    Ensures tables (readWhile n n.childSites)
      (·.errors = Forecast.whileLoop (n.childForecasts tables)) := by
  rw [readWhile, inRole?_map_site, Forecast.whileLoop, firstIn_map]
  cases hm : n.child? "condition" with
  | none => exact ensures_errorStmt n _ _
  | some condition =>
    have hmem := List.mem_of_find?_eq_some hm
    rw [Option.map_some, Option.map_some]
    dsimp only [Option.elim_some]
    rw [kind_site, node_forecast]
    split
    · exact ensures_errorStmt n _ _
    · refine (foretold_readTest (h.of_mem hmem) (h condition (.child hmem))).bind
        fun test htest => ?_
      refine (foretold_blockIn h "body").bind fun body hbody => ?_
      refine (ensures_place _).bind fun span _ => .pure (funext fun load => ?_)
      rw [← htest, ← hbody, Stmt.errors_eq]
      simp [Stmt.parts]

theorem foretold_readCatch :
    Ensures tables (readCatch n.site) (·.errors = (n.forecast tables).bodyErrors) := by
  rw [readCatch, children_site, Forecast.bodyErrors, children_forecast]
  refine (foretold_blockIn h "body").bind fun body hbody => ?_
  refine (ensures_place _).bind fun span _ => .pure (funext fun load => ?_)
  rw [← hbody, Stmt.errors_eq]
  cases caughtName? n.site.node <;>
    simp [Stmt.parts, Variable.parts, Variable.simple]

theorem foretold_readDo :
    Ensures tables (readDo n n.childSites) (stmtErrors · =
      Forecast.blockIn (n.childForecasts tables) "body" +
        Forecast.sumOf Forecast.bodyErrors
          (Forecast.those (n.childForecasts tables) .catchClause)) := by
  rw [readDo, ofKind_map_site, those_map]
  refine (foretold_blockIn h "body").bind fun body hbody => ?_
  refine (ensures_place _).bind fun span _ => ?_
  refine (ensures_mapM_sum fun clause hclause => foretold_readCatch
    (h.of_mem (mem_children_of_mem_childrenOf hclause))).bind fun clauses hclauses =>
    .pure (funext fun load => ?_)
  rw [Pi.add_apply, ← hbody, ← hclauses, stmtErrors_cons, Stmt.errors_eq, stmtErrors_eq_sum clauses]
  simp [Stmt.parts]

/-! ## All statements -/

theorem foretold_readThrow :
    Ensures tables (readThrow n n.childSites) (·.errors =
      (Forecast.firstIn (n.childForecasts tables) "value").elim 1
        Forecast.exprErrors) := by
  rw [readThrow, inRole?_map_site, firstIn_map]
  cases hm : n.child? "value" with
  | none => exact ensures_errorStmt n _ _
  | some value =>
    refine (foretold_exprIn h hm).bind fun e he => .pure (funext fun load => ?_)
    rw [Option.map_some, Option.elim_some, Forecast.exprErrors, ← he, Stmt.errors_eq]
    simp [Stmt.parts, Expr.outline]

omit h in
theorem errors_expressionStmt (span : Option Span) (e : Expr) (load : String → Nat) :
    (expressionStmt span e).errors load = e.errors load := by
  unfold expressionStmt
  split
  · rw [Stmt.errors_eq]
    simp [Stmt.parts]
  · rw [Stmt.errors_eq]
    simp [Stmt.parts]

theorem foretold_readStatement {expr : Adapter Expr} {conditional : Adapter Stmt}
    {outline : Outline} {count : Count} (hexpr : Ensures tables expr (·.outline = outline))
    (hconditional : Ensures tables conditional (·.errors = count)) :
    Ensures tables (readStatement n n.childSites expr conditional) (stmtErrors · =
      Forecast.statement n (n.childForecasts tables) outline count) := by
  refine (ensures_place _).bind fun span _ => ?_
  have hother : Ensures tables (if n.kind.isExpression then
      do return [expressionStmt (some span) (← expr)]
      else do return [← errorStmt n .unrecognizedSyntax s!"unsupported statement `{n.kind.name}`"])
      (stmtErrors · = if n.kind.isExpression then outline.errors else 1) := by
    split
    · exact hexpr.bind fun e he => .pure (funext fun load =>
        (errors_expressionStmt _ e load).trans (by rw [← he]; rfl))
    · exact (ensures_errorStmt n _ _).bind fun s hs => .pure hs
  rw [Forecast.statement]
  revert hother
  cases n.kind <;> intro hother
  case comment | breakStmt | continueStmt => exact .pure rfl
  case codeBlock => exact foretold_readBlock fun m hm => h m (.child hm)
  case ifStmt => exact hconditional.bind fun s hs => .pure hs
  case guardStmt => exact foretold_readGuard h
  case switchStmt => exact (foretold_readSwitch h).bind fun s hs => .pure hs
  case forInStmt => exact (foretold_readForIn h).bind fun s hs => .pure hs
  case whileStmt => exact (foretold_readWhile h).bind fun s hs => .pure hs
  case repeatWhileStmt => exact (ensures_errorStmt n _ _).bind fun s hs => .pure hs
  case doStmt => exact foretold_readDo h
  case deferStmt =>
    refine (foretold_blockIn h "body").bind fun body hbody => .pure (funext fun load => ?_)
    dsimp only
    rw [← hbody, stmtErrors_cons, Stmt.errors_eq]
    simp [Stmt.parts]
  case throwStmt => exact (foretold_readThrow h).bind fun s hs => .pure hs
  case returnStmt =>
    refine (foretold_valueIn h "value").bind fun value hvalue => .pure (funext fun load => ?_)
    dsimp only
    rw [Forecast.valueIn, elim_exprErrors hvalue, stmtErrors_cons, Stmt.errors_eq]
    cases value <;> simp [Stmt.parts]
  all_goals exact hother

end

end Ferry.Source
