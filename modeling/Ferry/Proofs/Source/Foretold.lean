/-
  Ferry.Proofs.Source.Foretold

  Readings come true as forecast.
-/
import Ferry.Proofs.Source.Arrangement
import Ferry.Proofs.Source.Forecast
import Ferry.Proofs.Source.Outcome
import Ferry.Proofs.Source.TernaryNesting
import Ferry.Proofs.Traverse.ErrorCount
import Mathlib.Algebra.BigOperators.Pi

namespace Ferry

/-- Whether an expression is an operator with the result of a test, parentheses aside. -/
def Expr.isTest (e : Expr) : Bool :=
  match e.unparenthesized with
  | .binary _ op _ _ => Source.isTestOperator op
  | _ => false

def Expr.plainName? : Expr → Option String
  | .name n _ _ _ => some n
  | _ => none

def Expr.outline (e : Expr) : Source.Outline where
  errors := e.errors
  ty := e.ty
  span := e.span
  isTest := e.isTest
  isError := e.isError
  name := e.plainName?

namespace Source

open Adapter

variable {tables : SideTables} {n m : Node}

/-! ## Forecasts of nodes -/

theorem forecasts_eq_map (tables : SideTables) (nodes : List Node) :
    Node.forecasts tables nodes = nodes.map (Node.forecast tables) := by
  induction nodes with
  | nil => rfl
  | cons n rest ih => rw [Node.forecasts, ih, List.map_cons]

abbrev Node.childForecasts (tables : SideTables) (n : Node) : List Forecast :=
  n.children.map (Node.forecast tables)

theorem forecast_eq (tables : SideTables) (n : Node) :
    n.forecast tables = .ofParts tables n (n.childForecasts tables) := by
  obtain ⟨head, children⟩ := n
  rw [Node.forecast, forecasts_eq_map]
  rfl

@[simp] theorem node_forecast (n : Node) : (n.forecast tables).node = n := by
  rw [forecast_eq]
  rfl

@[simp] theorem children_forecast (n : Node) :
    (n.forecast tables).children = n.childForecasts tables := by
  rw [forecast_eq]
  rfl

theorem firstIn_map (n : Node) (role : String) :
    Forecast.firstIn (n.childForecasts tables) role =
      (n.child? role).map (Node.forecast tables) := by
  rw [Forecast.firstIn, List.find?_map, Node.child?]
  simp only [Function.comp_def, node_forecast]

theorem those_map (n : Node) (kind : NodeKind) :
    Forecast.those (n.childForecasts tables) kind =
      (n.childrenOf kind).map (Node.forecast tables) := by
  rw [Forecast.those, List.filter_map, Node.childrenOf]
  simp only [Function.comp_def, node_forecast]

/-- That a node is somewhere below another. -/
inductive Node.IsBelow : Node → Node → Prop where
  | child {m n : Node} (h : m ∈ n.children) : IsBelow m n
  | step {m k n : Node} (h : k ∈ n.children) (hm : IsBelow m k) : IsBelow m n

theorem Node.below_induction {motive : Node → Prop}
    (h : ∀ n : Node, (∀ m, m.IsBelow n → motive m) → motive n) (n : Node) : motive n := by
  suffices hboth : motive n ∧ ∀ m, m.IsBelow n → motive m from hboth.1
  induction n using Node.induction with
  | h n ih =>
    have hbelow : ∀ m, m.IsBelow n → motive m := by
      intro m hm
      cases hm with
      | child hm => exact (ih m hm).1
      | step hk hm => exact (ih _ hk).2 m hm
    exact ⟨h n hbelow, hbelow⟩

theorem isBelow_of_child? {role : String} (h : n.child? role = some m) : m.IsBelow n :=
  .child (List.mem_of_find?_eq_some h)

theorem isBelow_of_head? (h : n.children.head? = some m) : m.IsBelow n :=
  .child (List.mem_of_head? h)

theorem mem_children_of_mem_childrenOf {kind : NodeKind} (h : m ∈ n.childrenOf kind) :
    m ∈ n.children :=
  List.mem_of_mem_filter h

/-! ## Outlines -/

theorem outline_eq_ofInfo {e : Expr} {info : Info} {count : Count}
    (h : ∀ load, e.errors load = count load) (hty : e.ty = info.ty := by rfl)
    (hspan : e.span = info.span := by rfl) (htest : e.isTest = false := by rfl)
    (herror : e.isError = false := by rfl) (hname : e.plainName? = none := by rfl) :
    e.outline = .ofInfo info count := by
  have herrors : e.errors = count := funext h
  rw [Expr.outline, hty, hspan, htest, herror, hname, herrors]
  rfl

theorem outline_binary (lhs rhs : Expr) (op : String) (info : Info) :
    (Expr.binary lhs op rhs info).outline = lhs.outline.binary op rhs.outline info := by
  have herrors : (Expr.binary lhs op rhs info).errors = lhs.errors + rhs.errors :=
    funext fun load => Expr.errors_binary load ..
  rw [Expr.outline, herrors]
  rfl

theorem outline_plainMember (e : Expr) (name : String) :
    (plainMember e name).outline = e.outline.part := by
  have herrors : (plainMember e name).errors = e.errors := funext fun load =>
    Expr.errors_member load ..
  rw [Expr.outline, herrors]
  rfl

theorem ensures_errorExpr (n : Node) (code : Code) (message : String) :
    Ensures tables (errorExpr n code message) (·.outline = .refused n) :=
  (ensures_diagnostic n code message).bind fun _ _ => .pure rfl

theorem ensures_errorStmt (n : Node) (code : Code) (message : String) :
    Ensures tables (errorStmt n code message) (·.errors = 1) :=
  (ensures_diagnostic n code message).bind fun _ _ => .pure rfl

theorem ensures_info (head : NodeHead) :
    Ensures tables (info head) (· = Forecast.infoOf tables head) := by
  refine ensures_read.bind ?_
  rintro _ rfl
  refine (ensures_place head).bind ?_
  rintro _ rfl
  exact .pure rfl

theorem ensures_mapM_forall₂ {β γ : Type} {f : Site → Adapter β} {R : β → γ → Prop}
    {forecast : Node → γ} {nodes : List Node}
    (h : ∀ m ∈ nodes, Ensures tables (f m.site) (R · (forecast m))) :
    Ensures tables ((nodes.map Node.site).mapM f) (List.Forall₂ R · (nodes.map forecast)) := by
  induction nodes with
  | nil => exact .pure .nil
  | cons m rest ih =>
    obtain ⟨hm, hrest⟩ := List.forall_mem_cons.mp h
    rw [List.map_cons, List.mapM_cons]
    exact hm.bind fun first hfirst => (ih hrest).bind fun others hothers =>
      .pure (.cons hfirst hothers)

theorem ensures_mapM_site {β γ : Type} {f : Site → Adapter β} {g : β → γ} {forecast : Node → γ}
    {nodes : List Node} (h : ∀ m ∈ nodes, Ensures tables (f m.site) (g · = forecast m)) :
    Ensures tables ((nodes.map Node.site).mapM f) (·.map g = nodes.map forecast) := by
  refine (ensures_mapM_forall₂ h).mono fun values hvalues => ?_
  exact List.forall₂_eq_eq_eq ▸ List.forall₂_map_left_iff.mpr hvalues

theorem ensures_mapM_sum {β : Type} {f : Site → Adapter β} {errors : β → Count}
    {forecast : Forecast → Count} {nodes : List Node}
    (h : ∀ m ∈ nodes, Ensures tables (f m.site) (errors · = forecast (m.forecast tables))) :
    Ensures tables ((nodes.map Node.site).mapM f) fun values => ∀ load,
      (values.map (errors · load)).sum =
        Forecast.sumOf forecast (nodes.map (Node.forecast tables)) load := by
  refine (ensures_mapM_site h).mono fun values hvalues load => ?_
  rw [Forecast.sumOf, List.map_map, Function.comp_def, ← hvalues, Pi.list_sum_apply, List.map_map]
  rfl

/-! ## Nodes that are read as forecast -/

/-- What is known of a name that a pattern binds is so. -/
structure BoundAs (subject : Expr) (found : PatternVariable) (bound : BoundOutline) : Prop where
  name : found.name = bound.name
  text : found.value.text = subject.text ++ bound.path
  isLet : found.isLet = bound.isLet
  errors : found.value.errors = bound.errors
  isError : found.value.isError = bound.isError

structure MatchAs (subject : Expr) (found : PatternMatch) (outline : PatternOutline) : Prop where
  condition : found.condition.map Expr.outline = outline.condition
  bound : List.Forall₂ (BoundAs subject) found.bindings outline.bound

/-- A match is the one that is forecast, or both are refused. -/
inductive MatchedAs (subject : Expr) : Except Diagnostic PatternMatch → Option PatternOutline → Prop
    where
  | refused (diagnostic : Diagnostic) : MatchedAs subject (.error diagnostic) none
  | found {found : PatternMatch} {outline : PatternOutline} (h : MatchAs subject found outline) :
      MatchedAs subject (.ok found) (some outline)

def Waiting.ofVariable (item : Variable) : Waiting where
  name := item.name
  errors := partErrors item.parts

abbrev AdapterState.waiting (state : AdapterState) : List Waiting :=
  state.pending.map Waiting.ofVariable

/-- That all that a node may be read as comes true as forecast. -/
structure Foretold (tables : SideTables) (n : Node) : Prop where
  expr : Ensures tables n.site.expr (·.outline = (n.forecast tables).expr)
  operators : Ensures tables n.site.operators
    (·.map (SequenceItem.map Expr.outline) = (n.forecast tables).operators)
  pattern : ∀ subject context isLet, Ensures tables (n.site.pattern subject context isLet).run
    (MatchedAs subject · ((n.forecast tables).pattern subject.outline context isLet))
  loopVariable : Ensures tables n.site.loopVariable.run
    (·.map Expr.errors = (n.forecast tables).loopVariable)
  conditional : Ensures tables n.site.conditional (·.errors = (n.forecast tables).conditional)
  item : ∀ before stmts after, Runs tables n.site.item before stmts after →
    (stmtErrors stmts, after.waiting) =
      (n.forecast tables).item before.waiting

theorem Foretold.exprErrors (h : Foretold tables n) :
    Ensures tables n.site.expr (·.errors = (n.forecast tables).exprErrors) :=
  h.expr.mono fun _ => congrArg Outline.errors

def ForetoldBelow (tables : SideTables) (n : Node) : Prop :=
  ∀ m : Node, m.IsBelow n → Foretold tables m

/-! ## Blocks -/

section

variable {nodes : List Node}

theorem foretold_items (h : ∀ n ∈ nodes, Foretold tables n) {before after : AdapterState}
    {read : List (List Stmt)}
    (hread : Runs tables ((nodes.map Node.site).mapM Site.item) before read after) :
    (stmtErrors read.flatten, after.waiting) =
      Forecast.items (nodes.map (Node.forecast tables)) before.waiting := by
  induction nodes generalizing before read with
  | nil =>
    obtain ⟨rfl, rfl⟩ := runs_pure hread
    rfl
  | cons n rest ih =>
    obtain ⟨hn, hrest⟩ := List.forall_mem_cons.mp h
    rw [List.map_cons, List.mapM_cons] at hread
    obtain ⟨first, between, hfirst, hread⟩ := runs_bind hread
    obtain ⟨others, last, hothers, hread⟩ := runs_bind hread
    obtain ⟨rfl, rfl⟩ := runs_pure hread
    have herrors : stmtErrors (first :: others).flatten = stmtErrors first + stmtErrors
        others.flatten :=
      funext fun load => stmtErrors_append first others.flatten
    rw [List.map_cons, Forecast.items, ← hn.item _ _ _ hfirst, herrors]
    dsimp only
    rw [← ih hrest hothers]

theorem stmtErrors_danglingBinding (pending : Pending) (load : String → Nat) :
    stmtErrors (pending.map danglingBinding) load = pending.length := by
  induction pending with
  | nil => rfl
  | cons item rest ih =>
    rw [List.map_cons, stmtErrors_cons, ih, List.length_cons, Nat.add_comm]
    rfl

/-- A block reads its nodes with nothing pending, and puts back what was. -/
theorem runs_readBlock {before after : AdapterState} {stmts : List Stmt}
    (h : Runs tables (readBlock (nodes.map Node.site)) before stmts after) :
    ∃ between read, Runs tables ((nodes.map Node.site).mapM Site.item) { before with pending := [] }
        read between ∧
      stmts = read.flatten ++ between.pending.map danglingBinding ∧ after.pending =
        before.pending := by
  obtain ⟨outer, start, houter, h⟩ := runs_bind h
  obtain ⟨rfl, rfl⟩ := runs_takePending houter
  obtain ⟨_, between, hread, h⟩ := runs_bind h
  obtain ⟨read, _, hread, hflat⟩ := runs_bind hread
  obtain ⟨rfl, rfl⟩ := runs_pure hflat
  obtain ⟨left, last, hleft, h⟩ := runs_bind h
  obtain ⟨pending, _, htake, hleft⟩ := runs_bind hleft
  obtain ⟨rfl, rfl⟩ := runs_takePending htake
  obtain ⟨rfl, rfl⟩ := runs_pure hleft
  obtain ⟨_, _, hset, h⟩ := runs_bind h
  obtain rfl := runs_setPending hset
  obtain ⟨rfl, rfl⟩ := runs_pure h
  exact ⟨_, read, hread, rfl, rfl⟩

theorem foretold_readBlock (h : ∀ n ∈ nodes, Foretold tables n) :
    Ensures tables (readBlock (nodes.map Node.site))
      (stmtErrors · = Forecast.blockOf (nodes.map (Node.forecast tables))) := by
  intro before stmts after hruns
  obtain ⟨between, read, hread, rfl, hpending⟩ := runs_readBlock hruns
  refine ⟨hpending, funext fun load => ?_⟩
  have hitems : _ = Forecast.items _ [] := foretold_items h hread
  rw [stmtErrors_append, stmtErrors_danglingBinding, Forecast.blockOf, ← hitems]
  dsimp only
  rw [List.length_map]
  rfl

end

theorem foretold_block (hm : Foretold tables m) (h : ForetoldBelow tables m) :
    Ensures tables m.site.block (stmtErrors · = (m.forecast tables).block) := by
  rw [Site.block, Site.blockNodes, kind_site, Forecast.block, node_forecast]
  split
  · rw [children_site, children_forecast]
    exact foretold_readBlock fun c hc => h c (.child hc)
  · exact foretold_readBlock (List.forall_mem_singleton.mpr hm)

theorem ForetoldBelow.of_mem (h : ForetoldBelow tables n) (hm : m ∈ n.children) :
    ForetoldBelow tables m :=
  fun k hk => h k (.step hm hk)

theorem elim_exprErrors {found : Option Expr} {forecast : Option Forecast}
    (h : found.map Expr.outline = forecast.map Forecast.expr) :
    forecast.elim 0 Forecast.exprErrors = found.elim 0 Expr.errors := by
  match found, forecast with
  | none, none => rfl
  | some e, some forecast =>
    rw [Option.elim_some, Forecast.exprErrors, ← Option.some.inj h]
    rfl

theorem argumentErrors_map (arguments : List Argument) :
    Forecast.argumentErrors (arguments.map fun argument =>
      (argument.label, argument.value.outline)) = (arguments.map (·.value.errors)).sum := by
  rw [Forecast.argumentErrors, List.map_map]
  rfl

theorem errors_arrangeFor {ps : List ParameterInfo} {regular : List Argument}
    {trailing : Option Expr} {binding : Binding} (declaration : String) (span : Span)
    (h : bindArguments ps (regular.map Argument.label) trailing.isSome = some binding) :
    ∃ arguments, arrangeFor ps declaration regular trailing span = .ok arguments ∧
      ∀ load, arguments.errors load =
      ((supplied regular trailing).map (·.value.errors load)).sum := by
  refine ⟨_, arrangeFor_eq declaration span h, fun load => ?_⟩
  split
  · exact Expr.errors_tuple load _ _
  · have hflat := flatten_of_bindArguments h
    rw [← List.length_map Argument.value] at hflat
    have hlt : ∀ i ∈ binding.flatten, i < ((supplied regular trailing).map Argument.value).length :=
      fun i hi => by simpa [hflat] using hi
    obtain ⟨-, -, hvalues⟩ := parts_zipWith_slotOf (forall₂_fitsIn_bindArguments h)
      (forall₂_length_shares hlt)
    calc _ = (((List.zipWith slotOf ps _).map Slot.values).flatten.map (·.errors load)).sum := by
          rw [Expr.errors_shuffle, List.map_flatten, List.sum_flatten, List.map_map, List.map_map]
          rfl
      _ = _ := by
        rw [hvalues, flatten_shares hflat, List.map_map]
        rfl

theorem arrange_cases (declaration : Option String) (regular : List Argument)
    (trailing : Option Expr) (span : Span) :
    (Forecast.isArranged declaration (regular.map Argument.label) trailing.isSome = true ∧
      ∃ arguments, arrange declaration regular trailing span = .ok arguments ∧
        ∀ load, arguments.errors load =
          (regular.map (·.value.errors)).sum load + trailing.elim 0 Expr.errors load) ∨
    (Forecast.isArranged declaration (regular.map Argument.label) trailing.isSome = false ∧
      ∃ cause, arrange declaration regular trailing span = .error cause) := by
  have hsupplied : ∀ load, ((supplied regular trailing).map (·.value.errors load)).sum =
      (regular.map (·.value.errors)).sum load + trailing.elim 0 Expr.errors load := by
    intro load
    cases trailing <;> simp [supplied, Pi.list_sum_apply, Function.comp_def]
  simp only [← hsupplied]
  cases declaration with
  | none => exact .inl ⟨rfl, _, rfl, fun load => Expr.errors_tuple load _ _⟩
  | some declaration =>
    rw [arrange, Forecast.isArranged, Option.bind_some]
    cases hps : parameterClause? declaration with
    | none => exact .inl ⟨rfl, _, rfl, fun load => Expr.errors_tuple load _ _⟩
    | some ps =>
      dsimp only
      cases hbinding : bindArguments ps (regular.map Argument.label) trailing.isSome with
      | none =>
        refine .inr ⟨rfl, .mismatch (regular.map Argument.label) declaration, ?_⟩
        rw [arrangeFor]
        simp only [hbinding]
      | some binding => exact .inl ⟨rfl, errors_arrangeFor declaration span hbinding⟩

theorem outline_toExpr (types : TypeTable) (tree : OperatorTree Expr) :
    (tree.toExpr types).outline = (tree.map Expr.outline).outline types := by
  induction tree with
  | leaf operand => rfl
  | binary lhs op group rhs ihl ihr =>
    rw [OperatorTree.toExpr, outline_binary, OperatorTree.map, OperatorTree.outline, ← ihl, ← ihr]
    rfl
  | ternary condition middle otherwise ihl ihr =>
    rw [OperatorTree.map, OperatorTree.outline, ← ihl, ← ihr]
    exact outline_eq_ofInfo fun load => Expr.errors_ternary load ..
  | cast operand op ty ih =>
    rw [OperatorTree.toExpr, outline_binary, OperatorTree.map, OperatorTree.outline, ← ih]
    rfl

section

variable (h : ForetoldBelow tables n)

include h

theorem foretold_blockIn (role : String) :
    Ensures tables (blockIn n.childSites role)
      (stmtErrors · = Forecast.blockIn (n.childForecasts tables) role) := by
  rw [blockIn, inRole?_map_site, Forecast.blockIn, firstIn_map]
  cases hm : n.child? role with
  | none => exact .pure rfl
  | some m =>
    have hmem := List.mem_of_find?_eq_some hm
    exact foretold_block (h m (.child hmem)) (h.of_mem hmem)

theorem foretold_valueIn (role : String) :
    Ensures tables ((inRole? n.childSites role).mapM Site.expr) fun found =>
      found.map Expr.outline =
        (Forecast.firstIn (n.childForecasts tables) role).map Forecast.expr := by
  rw [inRole?_map_site, firstIn_map]
  cases hm : n.child? role with
  | none => exact .pure rfl
  | some m => exact (h m (isBelow_of_child? hm)).expr.map fun e he => congrArg some he

/-! ## Expressions -/

theorem foretold_argumentValue (hm : m ∈ n.children) :
    Ensures tables (argumentValue m.site) (·.outline = (m.forecast tables).argument) := by
  rw [argumentValue, children_site, List.head?_map, node_site, Forecast.argument, children_forecast,
    List.head?_map, node_forecast]
  cases hvalue : m.children.head? with
  | none => exact ensures_errorExpr m _ _
  | some value => exact (h value (.step hm (isBelow_of_head? hvalue))).expr

theorem foretold_readArguments :
    Ensures tables (readArguments n.childSites) fun arguments =>
      arguments.map (fun argument => (argument.label, argument.value.outline)) =
        Forecast.arguments (n.childForecasts tables) := by
  rw [readArguments, ofKind_map_site, Forecast.arguments, those_map, List.map_map]
  refine ensures_mapM_site fun m hm => ?_
  refine (foretold_argumentValue h (mem_children_of_mem_childrenOf hm)).bind fun value hvalue =>
    .pure ?_
  show (_, _) = (argumentLabel (m.forecast tables).node, _)
  rw [node_site, node_forecast, hvalue]

theorem foretold_exprIn {role : String} (hm : n.child? role = some m) :
    Ensures tables m.site.expr (·.outline = (m.forecast tables).expr) :=
  (h m (isBelow_of_child? hm)).expr

theorem foretold_readCall (info : Info) :
    Ensures tables (readCall n n.childSites info)
      (·.outline = Forecast.call tables n (n.childForecasts tables) info) := by
  rw [readCall, inRole?_map_site, Forecast.call, firstIn_map]
  cases hm : n.child? "function" with
  | none => exact ensures_errorExpr n _ _
  | some callee =>
    refine (foretold_exprIn h hm).bind fun function hfunction => ?_
    refine (foretold_readArguments h).bind fun regular hregular => ?_
    refine (foretold_valueIn h "trailing_closure").bind fun trailing htrailing => ?_
    refine ensures_read.bind ?_
    rintro _ rfl
    have hlabels : (Forecast.arguments (n.childForecasts tables)).map Prod.fst =
        regular.map Argument.label := by
      rw [← hregular, List.map_map]
      rfl
    have hsome : (Forecast.firstIn (n.childForecasts tables) "trailing_closure").isSome =
        trailing.isSome := by
      rw [← Option.isSome_map (f := Forecast.expr), ← htrailing, Option.isSome_map]
    rw [Option.map_some]
    dsimp only
    rw [node_forecast, hlabels, hsome, Site.head, node_site]
    obtain ⟨hyes, arguments, harguments, herrors⟩ | ⟨hno, cause, hcause⟩ :=
      arrange_cases (calleeDeclaration? tables.symbols callee.head) regular trailing n.head.span
    · rw [harguments, if_pos hyes]
      refine .pure (outline_eq_ofInfo fun load => ?_)
      rw [Expr.errors_call, herrors, elim_exprErrors htrailing, ← hregular, argumentErrors_map,
        Forecast.exprErrors, ← hfunction, ← Nat.add_assoc]
      rfl
    · rw [hcause, hno]
      exact ensures_errorExpr n _ _

theorem foretold_readSubscript (info : Info) :
    Ensures tables (readSubscript n n.childSites info)
      (·.outline = Forecast.subscript n (n.childForecasts tables) info) := by
  rw [readSubscript, inRole?_map_site, Forecast.subscript, firstIn_map]
  cases hm : n.child? "base" with
  | none => exact ensures_errorExpr n _ _
  | some base =>
    refine (foretold_exprIn h hm).bind fun value hvalue => ?_
    refine (foretold_readArguments h).bind fun indices hindices => ?_
    rw [← hindices]
    rcases indices with _ | ⟨⟨_ | _, _⟩, _ | _⟩
    · exact ensures_errorExpr n _ _
    all_goals
      refine .pure (outline_eq_ofInfo fun load => ?_)
      simp [Forecast.exprErrors, ← hvalue, Forecast.argumentErrors, Expr.outline, Pi.list_sum_apply,
        Function.comp_def]

theorem foretold_readTuple (info : Info) :
    Ensures tables (readTuple n.childSites info)
      (·.outline = Forecast.tuple (n.childForecasts tables) info) := by
  refine (foretold_readArguments h).bind fun elements helements => ?_
  rw [Forecast.tuple, ← helements]
  match elements with
  | [⟨none, inner⟩] =>
    exact .pure (Outline.ext (funext fun load => Expr.errors_paren load ..) rfl rfl rfl rfl rfl)
  | [] | ⟨some _, _⟩ :: _ | ⟨none, _⟩ :: _ :: _ =>
    refine .pure (outline_eq_ofInfo fun load => ?_)
    simp [Forecast.argumentErrors, Expr.outline, Pi.list_sum_apply, Function.comp_def]

theorem foretold_operand {build : Expr → Expr} {info : Info} {refused : Adapter Expr}
    (hbuild : ∀ e, (build e).outline = .ofInfo info e.errors)
    (hrefused : Ensures tables refused (·.outline = .refused n)) :
    Ensures tables
      (match inRole? n.childSites "operand" with
      | some operand => return build (← operand.expr)
      | none => refused)
      (·.outline = Forecast.unary n (n.childForecasts tables) info) := by
  rw [inRole?_map_site, Forecast.unary, firstIn_map]
  cases hm : n.child? "operand" with
  | none => exact hrefused
  | some operand =>
    refine (foretold_exprIn h hm).bind fun value hvalue => .pure ((hbuild value).trans ?_)
    rw [Option.map_some, Option.elim_some, Forecast.exprErrors, ← hvalue]
    rfl

theorem foretold_readMember (info : Info) :
    Ensures tables (readMember n n.childSites info) fun e => e.outline =
      match Forecast.firstIn (n.childForecasts tables) "base" with
      | some base => .ofInfo info base.exprErrors
      | none => if unwrappedType (info.ty.getD "") = "" then .refused n else .ofInfo info 0 := by
  have hmember : ∀ base : Expr, Ensures tables
      (do return Expr.member base n.text (← isLibrary (calleeOffset n.head) n.text) none info)
      (Expr.outline · = .ofInfo info base.errors) := fun base =>
    (ensures_isLibrary _ _).bind fun _ _ =>
      .pure (outline_eq_ofInfo fun load => Expr.errors_member load ..)
  rw [readMember, readBase, inRole?_map_site, firstIn_map]
  cases hm : n.child? "base" with
  | some base =>
    simp only [Option.map_some, bind_assoc]
    refine (foretold_exprIn h hm).bind fun value hvalue => ?_
    rw [pure_bind, Forecast.exprErrors, ← hvalue]
    exact hmember value
  | none =>
    simp only [Option.map_none, pure_bind]
    by_cases howner : unwrappedType (info.ty.getD "") = ""
    · rw [if_pos howner, if_pos howner]
      exact ensures_errorExpr n _ _
    · rw [if_neg howner, if_neg howner]
      exact hmember _

theorem foretold_readBinary (info : Info) :
    Ensures tables (readBinary n n.childSites info) fun e => e.outline =
      match Forecast.firstIn (n.childForecasts tables) "lhs",
        Forecast.firstIn (n.childForecasts tables) "rhs" with
      | some lhs, some rhs => lhs.expr.binary n.text rhs.expr info
      | _, _ => .refused n := by
  rw [readBinary, inRole?_map_site, inRole?_map_site, firstIn_map, firstIn_map]
  cases hl : n.child? "lhs" <;> cases hr : n.child? "rhs"
  case some.some lhs rhs =>
    refine (foretold_exprIn h hl).bind fun left hleft => ?_
    refine (foretold_exprIn h hr).bind fun right hright => .pure ?_
    rw [outline_binary, hleft, hright]
    rfl
  all_goals exact ensures_errorExpr n _ _

theorem foretold_readTernary (info : Info) :
    Ensures tables (readTernary n n.childSites info) fun e => e.outline =
      match Forecast.firstIn (n.childForecasts tables) "condition",
        Forecast.firstIn (n.childForecasts tables) "then",
        Forecast.firstIn (n.childForecasts tables) "else" with
      | some condition, some yes, some no =>
        .ofInfo info (condition.exprErrors + yes.exprErrors + no.exprErrors)
      | _, _, _ => .refused n := by
  rw [readTernary, inRole?_map_site, inRole?_map_site, inRole?_map_site, firstIn_map, firstIn_map,
    firstIn_map]
  cases hcondition : n.child? "condition" <;> cases hyes : n.child? "then" <;>
    cases hno : n.child? "else"
  case some.some.some =>
    refine (foretold_exprIn h hcondition).bind fun condition hcondition => ?_
    refine (foretold_exprIn h hyes).bind fun yes hyes => ?_
    refine (foretold_exprIn h hno).bind fun no hno => .pure ?_
    refine outline_eq_ofInfo fun load => ?_
    rw [Expr.errors_ternary, Forecast.exprErrors, Forecast.exprErrors, Forecast.exprErrors,
      ← hcondition, ← hyes, ← hno]
    rfl
  all_goals exact ensures_errorExpr n _ _

theorem foretold_readCast (info : Info) :
    Ensures tables (readCast n n.childSites info) fun e => e.outline =
      match Forecast.firstIn (n.childForecasts tables) "operand", n.typeText? "type" with
      | some operand, some _ => operand.expr.binary n.text {} info
      | _, _ => .refused n := by
  rw [readCast, inRole?_map_site, firstIn_map]
  cases hm : n.child? "operand" <;> cases n.typeText? "type"
  case some.some operand ty =>
    refine (foretold_exprIn h hm).bind fun value hvalue => .pure ?_
    rw [outline_binary, hvalue]
    rfl
  all_goals exact ensures_errorExpr n _ _

theorem foretold_gatherOperators :
    Ensures tables (gatherOperators n.childSites)
      (·.map (SequenceItem.map Expr.outline) =
        (n.childForecasts tables).flatMap Forecast.operators) := by
  refine (ensures_mapM_site fun m hm => (h m (.child hm)).operators).bind fun items hitems =>
    .pure ?_
  rw [List.map_flatten, hitems, List.flatMap_map]
  rfl

theorem foretold_readSequence :
    Ensures tables (readSequence n n.childSites) fun e => e.outline =
      match fold ((n.childForecasts tables).flatMap Forecast.operators) with
      | .ok tree => tree.outline tables.types
      | .error _ => .refused n := by
  refine (foretold_gatherOperators h).bind fun items hitems => ?_
  rw [← hitems]
  cases hfold : fold items with
  | ok tree =>
    rw [(fold_map_ok_iff Expr.outline items _).mpr ⟨tree, hfold, rfl⟩]
    refine ensures_read.bind ?_
    rintro _ rfl
    exact .pure (outline_toExpr tables.types tree)
  | error cause =>
    cases hforecast : fold (items.map (SequenceItem.map Expr.outline)) with
    | error _ => exact ensures_errorExpr n _ _
    | ok tree =>
      obtain ⟨inner, hinner, -⟩ := (fold_map_ok_iff Expr.outline items tree).mp hforecast
      rw [hfold] at hinner
      cases hinner

theorem foretold_readSegment {piece : Node} (hpiece : piece ∈ n.children) :
    Ensures tables (readSegment piece.site) fun segment =>
      (segment.values.map Expr.errors).sum = (piece.forecast tables).segmentErrors := by
  rw [readSegment, kind_site, Forecast.segmentErrors, node_forecast]
  split
  next hkind =>
    rw [if_pos hkind]
    exact .pure rfl
  next hkind =>
    rw [if_neg hkind]
    exact (h piece (.child hpiece)).exprErrors.bind fun value hvalue =>
      .pure ((add_zero _).trans hvalue)

theorem foretold_readEntry {entry : Node} (hentry : entry ∈ n.children) :
    Ensures tables (readEntry entry.site) fun found =>
      found.1.errors + found.2.errors = (entry.forecast tables).entryErrors := by
  have hbelow := h.of_mem hentry
  rw [readEntry, Site.child?, Site.child?, children_site, inRole?_map_site, inRole?_map_site,
    Forecast.entryErrors, children_forecast, firstIn_map, firstIn_map, node_site]
  cases hkey : entry.child? "key" <;> cases hvalue : entry.child? "value"
  case some.some =>
    refine (foretold_exprIn hbelow hkey).bind fun key hkey => ?_
    refine (foretold_exprIn hbelow hvalue).bind fun value hvalue => .pure ?_
    simp only [Option.map_some, Forecast.exprErrors, ← hkey, ← hvalue]
    rfl
  all_goals
    refine (ensures_errorExpr entry _ _).bind fun missing hmissing => .pure ?_
    exact congrArg (Outline.errors · + 0) hmissing

theorem foretold_readPlainExpr (info : Info) :
    Ensures tables (readPlainExpr n n.childSites info)
      (·.outline = Forecast.plainExpr tables n (n.childForecasts tables) info) := by
  rw [readPlainExpr, Forecast.plainExpr]
  cases n.kind
  case integerLiteral =>
    dsimp only
    rw [readInteger]
    cases integerValue? n.text with
    | some value => exact .pure rfl
    | none => exact ensures_errorExpr n _ _
  case floatLiteral =>
    dsimp only
    rw [readFloat]
    cases floatValue? n.text with
    | some value => exact .pure rfl
    | none => exact ensures_errorExpr n _ _
  case stringLiteral | booleanLiteral | nilLiteral | typeExpr => exact .pure rfl
  case interpolatedString =>
    refine (ensures_mapM_sum fun m hm => foretold_readSegment h hm).bind fun segments hsegments =>
      .pure (outline_eq_ofInfo fun load => ?_)
    rw [Expr.errors_interpolation, ← hsegments]
    simp only [Pi.list_sum_apply, List.map_map, Function.comp_def]
  case arrayLiteral =>
    refine (ensures_mapM_sum fun m hm => (h m (.child hm)).exprErrors).bind
      fun elements helements =>
      .pure (outline_eq_ofInfo fun load => ?_)
    rw [Expr.errors_array, helements]
  case dictionaryLiteral =>
    dsimp only
    rw [ofKind_map_site, those_map]
    refine (ensures_mapM_sum fun m hm =>
      foretold_readEntry h (mem_children_of_mem_childrenOf hm)).bind
      fun entries hentries => .pure (outline_eq_ofInfo fun load => ?_)
    rw [Expr.errors_dictionary, ← hentries]
    rfl
  case declRef =>
    refine (ensures_isLibrary _ _).bind fun _ _ => .pure ?_
    exact Outline.ext (funext fun load => Expr.errors_name load ..) rfl rfl rfl rfl rfl
  case memberAccess => exact foretold_readMember h info
  case call => exact foretold_readCall h info
  case closure =>
    refine (foretold_blockIn h "body").bind fun body hbody =>
      .pure (outline_eq_ofInfo fun load => ?_)
    rw [Expr.errors_closure, hbody]
  case subscript => exact foretold_readSubscript h info
  case prefixOperator =>
    exact foretold_operand h (fun _ => outline_eq_ofInfo fun load =>
      Expr.errors_prefixOp load ..) (ensures_errorExpr n _ _)
  case postfixOperator =>
    exact foretold_operand h (fun _ => outline_eq_ofInfo fun load =>
      Expr.errors_postfixOp load ..) (ensures_errorExpr n _ _)
  case optionalChain =>
    exact foretold_operand h (fun _ => outline_eq_ofInfo fun load =>
      Expr.errors_optional load ..) (ensures_errorExpr n _ _)
  case forceUnwrap =>
    exact foretold_operand h (fun _ => outline_eq_ofInfo fun load =>
      Expr.errors_force load ..) (ensures_errorExpr n _ _)
  case sequence => exact foretold_readSequence h
  case binaryOperator => exact foretold_readBinary h info
  case ternary => exact foretold_readTernary h info
  case cast => exact foretold_readCast h info
  case tuple => exact foretold_readTuple h info
  all_goals exact ensures_errorExpr n _ _

theorem foretold_readExpr :
    Ensures tables (readExpr n n.childSites)
      (·.outline = Forecast.exprOf tables n (n.childForecasts tables)) := by
  refine (ensures_info n.head).bind ?_
  rintro _ rfl
  refine ensures_read.bind ?_
  rintro _ rfl
  rw [Forecast.exprOf]
  cases tables.directives.payload? n.head.offset .literal with
  | some code => exact .pure rfl
  | none => exact foretold_readPlainExpr h _

/-! ## Operator sequences -/

omit h in
theorem ensures_groupOf (n : Node) :
    Ensures tables (groupOf n) (· = (OperatorGroup.ofText? n.text).getD .standard) := by
  rw [groupOf]
  cases OperatorGroup.ofText? n.text with
  | some group => exact .pure rfl
  | none => exact (ensures_warn n _ _).bind fun _ _ => .pure rfl

theorem foretold_middleOperand {middle : Option Node} (hmiddle : ∀ m ∈ middle, m ∈ n.children) :
    Ensures tables (middleOperand n (middle.map Node.site))
      (·.outline = Forecast.middle n (middle.map (Node.forecast tables))) := by
  cases middle with
  | none => exact ensures_errorExpr n _ _
  | some m => exact (h m (.child (hmiddle m rfl))).expr

theorem foretold_flattened (role : String) :
    Ensures tables (flattened (inRole? n.childSites role))
      (·.map (SequenceItem.map Expr.outline) =
        Forecast.flattened (Forecast.firstIn (n.childForecasts tables) role)) := by
  rw [inRole?_map_site, firstIn_map]
  cases hm : n.child? role with
  | none => exact .pure rfl
  | some side =>
    have hside := List.mem_of_find?_eq_some hm
    simp only [Option.map_some, flattened, Forecast.flattened, kind_site,
      node_forecast, children_site, children_forecast]
    split
    · exact foretold_gatherOperators (h.of_mem hside)
    · exact (h side (.child hside)).operators

theorem foretold_readOperators {expr : Adapter Expr} {forecast : Outline}
    (hexpr : Ensures tables expr (·.outline = forecast)) :
    Ensures tables (readOperators n n.childSites expr)
      (·.map (SequenceItem.map Expr.outline) =
        Forecast.operatorsOf n (n.childForecasts tables) forecast) := by
  have hoperand : Ensures tables (do return [SequenceItem.operand (.leaf (← expr))])
      (List.map (SequenceItem.map Expr.outline) · = [.operand (.leaf forecast)]) := by
    refine hexpr.bind fun e he => .pure ?_
    rw [← he]
    rfl
  rw [readOperators, Forecast.operatorsOf]
  cases n.kind
  case binaryOperator =>
    simp only [List.isEmpty_map]
    split
    · refine (ensures_groupOf n).bind ?_
      rintro _ rfl
      exact .pure rfl
    · exact hoperand
  case ternaryOperator =>
    have hternary : ∀ middle : Option Node, (∀ m ∈ middle, m ∈ n.children) →
        Ensures tables
          (do return [SequenceItem.operation (.ternary (← middleOperand n (middle.map Node.site)))])
          (List.map (SequenceItem.map Expr.outline) · =
            [.operation (.ternary (Forecast.middle n (middle.map (Node.forecast tables))))]) := by
      refine fun middle hmem => (foretold_middleOperand h hmem).bind fun e he => .pure ?_
      rw [← he]
      rfl
    simp only [inRole?_map_site, firstIn_map, List.head?_map]
    cases hchild : n.child? "then" with
    | none => exact hternary n.children.head? fun m => List.mem_of_head?
    | some m =>
      refine hternary (some m) fun found hfound => ?_
      obtain rfl := Option.some.inj hfound
      exact List.mem_of_find?_eq_some hchild
  case cast =>
    simp only [inRole?_map_site, firstIn_map, Option.isNone_map]
    split
    · exact .pure rfl
    · exact hoperand
  case ternary =>
    refine (foretold_flattened h "condition").bind fun condition hcondition => ?_
    have hmem : ∀ m ∈ n.child? "then", m ∈ n.children := fun m => List.mem_of_find?_eq_some
    rw [inRole?_map_site]
    refine (foretold_middleOperand h hmem).bind fun middle hmiddle => ?_
    refine (foretold_flattened h "else").bind fun otherwise hotherwise => .pure ?_
    rw [List.map_append, List.map_cons, hcondition, hotherwise, SequenceItem.map, Operation.map,
      hmiddle, ← firstIn_map]
  all_goals exact hoperand

end

end Source

end Ferry
