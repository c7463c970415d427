/-
  Ferry.Proofs.Source.ForetoldPattern

  Patterns come true as forecast.  A name is bound to what a path leads to from the subject, so the
  text of its value is that of the subject followed by the path.
-/
import Ferry.Proofs.Source.Foretold

namespace Ferry.Source

open Adapter

variable {tables : SideTables} {n m : Node} {subject part : Expr}

/-! ## Matches -/

theorem outline_plainBinary (lhs : Expr) (op : String) (rhs : Expr) :
    (plainBinary lhs op rhs).outline = lhs.outline.binary op rhs.outline :=
  outline_binary lhs rhs op {}

theorem outline_valueTest (subject value : Expr) (context : PatternContext) :
    (valueTest subject context value).outline =
      Forecast.valueTest subject.outline context value.outline := by
  cases context with
  | switchCase => rfl
  | condition => exact outline_plainBinary subject "==" value

theorem matchAs_empty : MatchAs subject {} {} :=
  ⟨rfl, .nil⟩

theorem matchAs_ofTest {test : Expr} {outline : Outline} (h : test.outline = outline) :
    MatchAs subject (.ofTest test) (.ofTest outline) :=
  ⟨congrArg some h, .nil⟩

namespace MatchAs

variable {found other : PatternMatch} {outline inner : PatternOutline} {path : String}

theorem require (h : MatchAs subject found outline) (test : Expr) :
    MatchAs subject (found.require test) (outline.require test.outline) := by
  refine ⟨?_, h.bound⟩
  rw [PatternMatch.require, PatternOutline.require, ← h.condition]
  cases found.condition with
  | none => rfl
  | some before => exact congrArg some (outline_plainBinary before "&&" test)

theorem absorb (h : MatchAs subject found outline) (hother : MatchAs part other inner)
    (hpart : part.text = subject.text ++ path) :
    MatchAs subject (found.absorb other) (outline.absorb path inner) := by
  have htested : MatchAs subject (other.condition.elim found found.require)
      (inner.condition.elim outline outline.require) := by
    rw [← hother.condition]
    cases other.condition with
    | none => exact h
    | some test => exact h.require test
  refine ⟨htested.condition, List.rel_append htested.bound ?_⟩
  rw [List.forall₂_map_right_iff]
  refine hother.bound.imp fun bound forecast hbound =>
    ⟨hbound.name, ?_, hbound.isLet, hbound.errors, hbound.isError⟩
  rw [hbound.text, hpart, String.append_assoc]

end MatchAs

theorem matchedAs_bind {reading : ExceptT Diagnostic Adapter PatternMatch}
    {next : PatternMatch → ExceptT Diagnostic Adapter PatternMatch}
    {forecast : Option PatternOutline} {later : PatternOutline → Option PatternOutline}
    (h : Ensures tables reading.run (MatchedAs part · forecast))
    (hnext : ∀ found outline, MatchAs part found outline →
      Ensures tables (next found).run (MatchedAs subject · (later outline))) :
    Ensures tables (reading >>= next).run (MatchedAs subject · (forecast.bind later)) := by
  rw [ExceptT.run_bind]
  refine h.bind fun value hvalue => ?_
  cases hvalue with
  | refused diagnostic => exact .pure (.refused diagnostic)
  | found hmatch => exact hnext _ _ hmatch

theorem ensures_lift_bind {ε α β : Type} {first : Adapter α} {next : α → ExceptT ε Adapter β}
    {P : α → Prop} {Q : Except ε β → Prop} (h : Ensures tables first P)
    (hnext : ∀ value, P value → Ensures tables (next value).run Q) :
    Ensures tables ((liftM first : ExceptT ε Adapter α) >>= next).run Q := by
  rw [ExceptT.run_bind]
  refine (h.map (f := Except.ok) (Q := (∃ value, P value ∧ · = .ok value))
    fun value hvalue => ⟨value, hvalue, rfl⟩).bind ?_
  rintro _ ⟨value, hvalue, rfl⟩
  exact hnext value hvalue

theorem ensures_refusePattern (n : Node) (code : Code) (message : String) :
    Ensures tables (refusePattern n code message : ExceptT Diagnostic Adapter PatternMatch).run
      (MatchedAs subject · none) := by
  exact ensures_lift_bind (ensures_diagnostic n code message) fun found _ => .pure (.refused found)

theorem ensures_caseOwner (n : Node) (subject : Expr) :
    Ensures tables (caseOwner n subject)
    (·.isSome = Forecast.hasOwner tables n subject.outline) := by
  have htype : Ensures tables (typeOf n.head) (tables.types.get? n.head.offset n.head.length = ·) :=
    ensures_read.bind fun _ htables => .pure (htables ▸ rfl)
  refine htype.bind ?_
  rintro _ rfl
  refine .pure ?_
  rw [Forecast.hasOwner]
  show Option.isSome (if _ then _ else _) = (unwrappedType _ != "")
  split <;> simp_all [Expr.outline]

theorem text_plainMember (subject : Expr) (name : String) :
    (plainMember subject name).text = subject.text ++ ("." ++ name) := by
  rw [plainMember, Expr.text, String.append_assoc]

section

variable (h : ForetoldBelow tables n)

include h

theorem foretold_destructureElements {isLet : Bool} {elements : List (Node × String)}
    (hmem : ∀ element ∈ elements, element.1 ∈ n.children) {found : PatternMatch}
    {outline : PatternOutline} (hfound : MatchAs subject found outline) :
    Ensures tables (destructureElements subject isLet found
      (elements.map (Prod.map Node.site id))).run
      (MatchedAs subject · (Forecast.elements subject.outline isLet outline
        (elements.map (Prod.map (Node.forecast tables) id)))) := by
  induction elements generalizing found outline with
  | nil => exact .pure (.found hfound)
  | cons element rest ih =>
    obtain ⟨helement, hrest⟩ := List.forall_mem_cons.mp hmem
    have hpattern := (h element.1 (.child helement)).pattern (plainMember subject element.2)
      .condition isLet
    rw [outline_plainMember] at hpattern
    exact matchedAs_bind hpattern fun inner forecast hinner =>
      ih hrest (hfound.absorb hinner (text_plainMember subject element.2))

theorem foretold_destructurePayload {caseName : String} {isLet : Bool}
    {declared : List (Option String)} {arguments : List Node}
    (hmem : ∀ argument ∈ arguments, argument ∈ n.children) {found : PatternMatch}
    {outline : PatternOutline} (hfound : MatchAs subject found outline) (index : Nat) :
    Ensures tables
      (destructurePayload caseName subject isLet declared found index (arguments.map Node.site)).run
      (MatchedAs subject · (Forecast.payload subject.outline isLet declared outline index
        (arguments.map (Node.forecast tables)))) := by
  induction arguments generalizing found outline index with
  | nil => exact .pure (.found hfound)
  | cons argument rest ih =>
    obtain ⟨hargument, hrest⟩ := List.forall_mem_cons.mp hmem
    rw [List.map_cons, List.map_cons, destructurePayload, Forecast.payload, children_site,
      children_forecast, List.head?_map, List.head?_map]
    cases hinner : argument.children.head? with
    | none => exact ih hrest hfound (index + 1)
    | some inner =>
      simp only [Option.map_some, node_site, node_forecast, kind_site]
      cases argumentLabel argument <|> (declared[index]?).join with
      | some label =>
        have hpattern := (h inner (.step hargument (isBelow_of_head? hinner))).pattern
          (plainMember subject label) .condition isLet
        rw [outline_plainMember] at hpattern
        exact matchedAs_bind hpattern fun bound forecast hbound =>
          ih hrest (hfound.absorb hbound (text_plainMember subject label)) (index + 1)
      | none =>
        dsimp only
        split
        · exact ih hrest hfound (index + 1)
        · exact ensures_refusePattern argument _ _

theorem foretold_destructureCase (subject : Expr) (context : PatternContext) (isLet : Bool) :
    Ensures tables (destructureCase n n.childSites subject context isLet).run
      (MatchedAs subject · (Forecast.enumCase tables n (n.childForecasts tables)
        subject.outline context isLet)) := by
  refine ensures_lift_bind (ensures_caseOwner n subject) fun owner howner => ?_
  rw [Forecast.enumCase, ← howner]
  cases owner with
  | none => exact ensures_refusePattern n _ _
  | some owner =>
    simp only [ofKind_map_site, those_map]
    cases harguments : n.childrenOf .patternArgument with
    | nil => exact .pure (.found (matchAs_ofTest (outline_valueTest ..)))
    | cons first rest =>
      refine ensures_lift_bind ensures_read ?_
      rintro _ rfl
      refine foretold_destructurePayload h (fun argument hargument => ?_)
        (matchAs_ofTest (outline_plainBinary ..)) 0
      exact mem_children_of_mem_childrenOf (harguments ▸ hargument)

theorem foretold_destructureAs (subject : Expr) (isLet : Bool) :
    Ensures tables (destructureAs n n.childSites subject isLet).run
      (MatchedAs subject ·
        (match Forecast.firstIn (n.childForecasts tables) "pattern", n.typeText? "type" with
        | some inner, some ty => do
          let bound ← inner.pattern (subject.outline.binary "as" {}) .condition isLet
          some ((PatternOutline.ofTest (subject.outline.binary "is" {})).absorb
            (" as " ++ ty) bound)
        | _, _ => none)) := by
  rw [destructureAs, inRole?_map_site, firstIn_map]
  cases hm : n.child? "pattern" <;> cases n.typeText? "type"
  case some.some inner ty =>
    have hpattern := (h inner (isBelow_of_child? hm)).pattern
      (plainBinary subject "as" (.typeName ty {})) .condition isLet
    rw [outline_plainBinary] at hpattern
    refine matchedAs_bind hpattern fun bound forecast hbound => .pure (.found ?_)
    refine (matchAs_ofTest (outline_plainBinary ..)).absorb hbound ?_
    rw [show " as " = " " ++ "as" ++ " " from rfl]
    simp only [plainBinary, Expr.text, String.append_assoc]
  all_goals exact ensures_refusePattern n _ _

theorem foretold_readPattern (subject : Expr) (context : PatternContext) (isLet : Bool) :
    Ensures tables (readPattern n n.childSites subject context isLet).run
      (MatchedAs subject · (Forecast.patternOf tables n (n.childForecasts tables)
        subject.outline context isLet)) := by
  rw [readPattern, Forecast.patternOf]
  cases n.kind
  case wildcardPattern => exact .pure (.found matchAs_empty)
  case identifierPattern =>
    exact .pure (.found ⟨rfl, .cons ⟨rfl, (String.append_empty).symm, rfl, rfl, rfl⟩ .nil⟩)
  case valueBindingPattern =>
    dsimp only
    rw [List.head?_map, List.head?_map]
    cases hm : n.children.head? with
    | none => exact ensures_refusePattern n _ _
    | some inner => exact (h inner (isBelow_of_head? hm)).pattern subject context _
  case expressionPattern =>
    dsimp only
    rw [List.head?_map, List.head?_map]
    cases hm : n.children.head? with
    | none => exact ensures_refusePattern n _ _
    | some inner =>
      refine ensures_lift_bind (h inner (isBelow_of_head? hm)).expr fun value hvalue => ?_
      exact .pure (.found (matchAs_ofTest (by rw [outline_valueTest, hvalue])))
  case enumCasePattern => exact foretold_destructureCase h subject context isLet
  case tuplePattern =>
    dsimp only
    rw [destructureTuple, List.length_map, List.length_map]
    split
    · exact ensures_refusePattern n _ _
    · rw [List.zip_map_left, List.zip_map_left]
      exact foretold_destructureElements h (fun element helement => (List.of_mem_zip helement).1)
        matchAs_empty
  case isTypePattern => exact .pure (.found (matchAs_ofTest (outline_plainBinary ..)))
  case asPattern => exact foretold_destructureAs h subject isLet
  all_goals exact ensures_refusePattern n _ _

/-! ## Loop variables -/

omit h in
theorem ensures_optional_bind {α β γ δ : Type} {first : OptionT Adapter α}
    {next : α → OptionT Adapter β} {g : α → γ} {g' : β → δ} {forecast : Option γ}
    {later : γ → Option δ} (h : Ensures tables first.run (·.map g = forecast))
    (hnext : ∀ value, Ensures tables (next value).run (·.map g' = later (g value))) :
    Ensures tables (first >>= next).run (·.map g' = forecast.bind later) := by
  rw [OptionT.run_bind]
  refine h.bind ?_
  rintro (_ | value) rfl
  · exact .pure rfl
  · exact hnext value

omit h in
theorem ensures_loopName (n : Node) (name : String) :
    Ensures tables (liftM (loopName n name) : OptionT Adapter Expr).run
      (·.map Expr.errors = some fun load => load name) := by
  have hname : Ensures tables (loopName n name) (·.errors = fun load => load name) :=
    (ensures_place n.head).bind fun span _ => .pure (funext fun load => Expr.errors_name load ..)
  exact hname.map (f := some) fun e he => congrArg some he

theorem foretold_loopElements {nodes : List Node} (hmem : ∀ m ∈ nodes, m ∈ n.children) :
    Ensures tables
      ((nodes.map Node.site).mapM fun element : Site => (do
        return ({ label := none, value := ← element.loopVariable } : Argument) :
        OptionT Adapter Argument)).run
      (·.map (List.map (·.value.errors)) =
        (nodes.map (Node.forecast tables)).mapM Forecast.loopVariable) := by
  induction nodes with
  | nil => exact .pure rfl
  | cons m rest ih =>
    obtain ⟨hm, hrest⟩ := List.forall_mem_cons.mp hmem
    rw [List.map_cons, List.mapM_cons, List.map_cons, List.mapM_cons, bind_assoc]
    refine ensures_optional_bind (h m (.child hm)).loopVariable fun value => ?_
    rw [pure_bind]
    exact ensures_optional_bind (ih hrest) fun others => .pure rfl

theorem foretold_readLoopVariable :
    Ensures tables (readLoopVariable n n.childSites).run
      (·.map Expr.errors = Forecast.loopVariableOf n (n.childForecasts tables)) := by
  rw [readLoopVariable, Forecast.loopVariableOf]
  cases n.kind
  case identifierPattern => exact ensures_loopName n n.text
  case wildcardPattern => exact ensures_loopName n "_"
  case valueBindingPattern =>
    dsimp only
    rw [List.head?_map, List.head?_map]
    cases hm : n.children.head? with
    | none => exact .pure rfl
    | some inner => exact (h inner (isBelow_of_head? hm)).loopVariable
  case tuplePattern =>
    dsimp only
    rw [Option.map_eq_bind]
    refine ensures_optional_bind (foretold_loopElements h fun m => id) fun elements => ?_
    rw [OptionT.run_bind]
    refine ((ensures_place n.head).map (f := some) (Q := (∃ span, · = some span))
      fun span _ => ⟨span, rfl⟩).bind ?_
    rintro _ ⟨span, rfl⟩
    refine .pure (congrArg some (funext fun load => ?_))
    rw [Expr.errors_tuple, Pi.list_sum_apply, List.map_map]
    rfl
  all_goals exact .pure rfl

end

end Ferry.Source
