/-
  Ferry.Proofs.Source.ForetoldDeclaration

  Declarations come true as forecast, and with them every node (`foretold`).  So the error nodes of
  a file are counted beforehand, from its syntax tree and side tables alone
  (`length_placeholders_adapt`).
-/
import Ferry.Proofs.Source.ForetoldStatement

namespace Ferry.Source

open Adapter

variable {tables : SideTables} {n m : Node}

/-! ## Nodes of declarations -/

def Node.cases (n : Node) : List Node :=
  (n.childrenOf .enumCaseDecl).flatMap fun group => group.childrenOf .enumCaseElement

theorem elementSites_map_site (n : Node) :
    elementSites n.childSites = n.cases.map Node.site := by
  rw [elementSites, ofKind_map_site, Node.cases, List.flatMap_map, List.map_flatMap]
  refine List.flatMap_congr fun group _ => ?_
  rw [children_site, ofKind_map_site]

theorem takeBinding_eq (name : String) (pending : Pending) :
    takeBinding name pending = (pending.find? (·.name = name)).map
      (·, pending.eraseP (·.name = name)) := by
  fun_induction takeBinding name pending with
  | case1 => rfl
  | case2 first rest hname => simp [hname]
  | case3 first rest hname ih => simp [hname, ih, Function.comp_def]

/-- What the declaration of a name is read as. -/
inductive VarDeclRead (tables : SideTables) (n : Node) (before after : AdapterState) :
    Stmt → Prop where
  /-- Nothing is pending, so it has a value of its own. -/
  | fresh {item : Variable} (hnone : before.pending = [])
      (hitem : Runs tables (readVariable n n.childSites n) before item after) :
      VarDeclRead tables n before after (.declare item)
  | paired {binding : Variable} (hfound : before.pending.find? (·.name = n.text) = some binding)
      (hpending : after.pending = before.pending.eraseP (·.name = n.text)) :
      VarDeclRead tables n before after (.declare (declaredAs n binding))
  | unpaired {diagnostic : Diagnostic} {span : Option Span} (hsome : before.pending ≠ [])
      (hnone : before.pending.find? (·.name = n.text) = none)
      (hpending : after.pending = before.pending) :
      VarDeclRead tables n before after (.errorStmt diagnostic span)

theorem varDeclRead_of_runs {before after : AdapterState} {s : Stmt}
    (h : Runs tables (readVarDecl n n.childSites) before s after) :
    VarDeclRead tables n before after s := by
  obtain ⟨_, _, hget, hrest⟩ := runs_bind h
  obtain ⟨rfl, rfl⟩ := runs_get hget
  cases hpending : before.pending with
  | nil =>
    rw [hpending] at hrest
    obtain ⟨item, last, hitem, hdone⟩ := runs_bind hrest
    obtain ⟨rfl, rfl⟩ := runs_pure hdone
    exact .fresh hpending hitem
  | cons first rest =>
    simp only [hpending, takeBinding_eq] at hrest
    cases hname : (first :: rest).find? (·.name = n.text) with
    | some binding =>
      simp only [hname, Option.map_some] at hrest
      obtain ⟨_, last, hset, hdone⟩ := runs_bind hrest
      obtain rfl := runs_setPending hset
      obtain ⟨rfl, rfl⟩ := runs_pure hdone
      exact .paired (hpending ▸ hname) (by rw [hpending])
    | none =>
      simp only [hname, Option.map_none] at hrest
      obtain ⟨diagnostic, last, hdiagnostic, hdone⟩ := runs_bind hrest
      obtain ⟨rfl, rfl⟩ := runs_pure hdone
      exact .unpaired (by simp [hpending]) (hpending ▸ hname)
        (ensures_diagnostic n _ _ _ _ _ hdiagnostic).1

theorem runs_group {before after : AdapterState} {stmts : List Stmt} {children : List Site}
    (hkind : n.kind = .patternBindingDecl)
    (h : Runs tables (readDeclaration n children) before stmts after) :
    ∃ start : AdapterState, start.pending = before.pending ∧
      Runs tables (bufferBindings n children) start () after ∧ stmts = [] := by
  obtain ⟨span, start, hplace, hrest⟩ := runs_bind h
  rw [hkind] at hrest
  obtain ⟨_, last, hbuffer, hdone⟩ := runs_bind hrest
  obtain ⟨rfl, rfl⟩ := runs_pure hdone
  exact ⟨start, (ensures_place _ _ _ _ hplace).1, hbuffer, rfl⟩

theorem runs_varDecl {before after : AdapterState} {stmts : List Stmt} {children : List Site}
    (hkind : n.kind = .varDecl) (h : Runs tables (readDeclaration n children) before stmts after) :
    ∃ start : AdapterState, start.pending = before.pending ∧
      ∃ s, Runs tables (readVarDecl n children) start s after ∧ stmts = [s] := by
  obtain ⟨span, start, hplace, hrest⟩ := runs_bind h
  rw [hkind] at hrest
  obtain ⟨s, last, hread, hdone⟩ := runs_bind hrest
  obtain ⟨rfl, rfl⟩ := runs_pure hdone
  exact ⟨start, (ensures_place _ _ _ _ hplace).1, s, hread, rfl⟩

section

variable (h : ForetoldBelow tables n)

include h

/-! ## Functions -/

omit h in
theorem mapM_lift {ε : Type} (found : Option Site) :
    (found.mapM fun value => ExceptT.lift value.expr : ExceptT ε Adapter (Option Expr)) =
      ExceptT.lift (found.mapM Site.expr) := by
  cases found with
  | none => rfl
  | some value => simp [ExceptT.lift]

theorem foretold_default :
    Ensures tables ((n.site.child? "default").mapM Site.expr) fun found => ∀ load,
      partErrors (found.toList.map .value) load = (n.forecast tables).defaultErrors load := by
  rw [Site.child?, children_site, Forecast.defaultErrors, children_forecast]
  refine (foretold_valueIn h "default").mono fun found hfound load => ?_
  rw [Forecast.valueIn, elim_exprErrors hfound]
  cases found <;> simp

omit h in
def parameterParts (parameters : List Parameter) : List Part :=
  parameters.flatMap fun parameter => parameter.default.toList.map .value

/-- Parameters are refused or hold the errors of their defaults. -/
theorem foretold_readParameters {nodes : List Node} (hmem : ∀ m ∈ nodes, m ∈ n.children) :
    Ensures tables (readParameters (nodes.map Node.site)).run fun found =>
      (nodes.all (fun m => (ParameterInfo.ofText? m.text).isSome) = true ∧
        ∃ parameters, found = .ok parameters ∧ ∀ load, partErrors (parameterParts parameters) load =
          Forecast.sumOf Forecast.defaultErrors (nodes.map (Node.forecast tables)) load) ∨
      (nodes.all (fun m => (ParameterInfo.ofText? m.text).isSome) = false ∧
        ∃ refused, found = .error refused) := by
  induction nodes with
  | nil => exact .pure (.inl ⟨rfl, [], rfl, fun _ => rfl⟩)
  | cons m rest ih =>
    obtain ⟨hm, hrest⟩ := List.forall_mem_cons.mp hmem
    rw [List.map_cons, readParameters, Site.text, node_site, List.all_cons]
    cases hinfo : ParameterInfo.ofText? m.text with
    | none => exact .pure (.inr ⟨rfl, m, rfl⟩)
    | some info =>
      rw [mapM_lift]
      refine ensures_lift_bind (foretold_default (h.of_mem hm)) fun default hdefault => ?_
      rw [ExceptT.run_bind]
      refine (ih hrest).bind ?_
      rintro _ (⟨hall, parameters, rfl, hparameters⟩ | ⟨hall, refused, rfl⟩)
      · refine .pure (.inl ⟨by rw [hall]; rfl, _, rfl, fun load => ?_⟩)
        rw [parameterParts, List.flatMap_cons, partErrors_append, hdefault]
        exact congrArg (_ + ·) (hparameters load)
      · exact .pure (.inr ⟨by rw [hall]; rfl, refused, rfl⟩)

theorem foretold_readFunction :
    Ensures tables (readFunction n n.childSites)
      (·.errors = Forecast.function (n.childForecasts tables)) := by
  rw [readFunction, ofKind_map_site, Forecast.function, those_map, List.all_map]
  simp only [Function.comp_def, node_forecast]
  refine (foretold_readParameters h fun m => mem_children_of_mem_childrenOf).bind ?_
  rintro _ (⟨hall, parameters, rfl, hparameters⟩ | ⟨hall, refused, rfl⟩)
  · rw [if_pos hall]
    have hbody : Ensures tables ((inRole? n.childSites "body").mapM Site.block)
        fun body => ∀ load, partErrors (body.toList.map .body) load =
          Forecast.blockIn (n.childForecasts tables) "body" load := by
      rw [inRole?_map_site, Forecast.blockIn, firstIn_map]
      cases hm : n.child? "body" with
      | none => exact .pure fun _ => rfl
      | some m =>
        have hmem := List.mem_of_find?_eq_some hm
        refine (foretold_block (h m (.child hmem)) (h.of_mem hmem)).map fun body hbody load => ?_
        rw [Option.map_some, Option.elim_some, ← hbody]
        rfl
    refine hbody.bind fun body hbody => ensures_read.bind ?_
    rintro _ rfl
    refine .pure (funext fun load => ?_)
    rw [Pi.add_apply, ← hparameters, ← hbody, Stmt.errors_eq, Stmt.parts, partErrors_append]
    exact Nat.zero_add _
  · rw [hall]
    exact ensures_errorStmt refused _ _

/-! ## Types -/

theorem foretold_readElement :
    Ensures tables (readElement n.site)
      (fun element => element.rawValue.elim 0 Expr.errors =
        (n.forecast tables).rawValueErrors) := by
  rw [readElement, child?_site, Forecast.rawValueErrors, children_forecast, ← inRole?_map_site]
  refine (foretold_valueIn h "raw_value").bind fun value hvalue => ?_
  refine (ensures_place _).bind fun span _ => .pure ?_
  rw [Forecast.valueIn, elim_exprErrors hvalue]

theorem foretold_readMembers :
    Ensures tables (readMembers n.childSites)
      (stmtErrors · = Forecast.members (n.childForecasts tables)) := by
  rw [readMembers, Forecast.members, List.filter_map, List.filter_map]
  simp only [Function.comp_def, isMember, kind_site, node_forecast]
  exact foretold_readBlock fun m hm => h m (.child (List.mem_of_mem_filter hm))

theorem foretold_elements :
    Ensures tables ((elementSites n.childSites).mapM readElement) fun elements => ∀ load,
      (elements.map fun element => element.rawValue.elim 0 Expr.errors load).sum =
        Forecast.caseElements (n.childForecasts tables) load := by
  have hcases : (Forecast.those (n.childForecasts tables) .enumCaseDecl).flatMap
      (fun group => Forecast.those group.children .enumCaseElement) =
        n.cases.map (Node.forecast tables) := by
    rw [those_map, Node.cases, List.flatMap_map, List.map_flatMap]
    refine List.flatMap_congr fun group _ => ?_
    rw [children_forecast, those_map]
  rw [elementSites_map_site, Forecast.caseElements, hcases]
  refine ensures_mapM_sum fun case hcase => ?_
  obtain ⟨group, hgroup, hcase⟩ := List.mem_flatMap.mp hcase
  exact foretold_readElement fun m hm =>
    h m (.step (mem_children_of_mem_childrenOf hgroup)
      (.step (mem_children_of_mem_childrenOf hcase) hm))

/-! ## Variables -/

theorem foretold_readAccessor (role keyword : String) :
    Ensures tables (readAccessor n.childSites role keyword) fun body => ∀ load,
      partErrors (body.toList.map .body) load =
        Forecast.accessor (n.childForecasts tables) role keyword load := by
  rw [readAccessor, inRole?_map_site, ofKind_map_site, Forecast.accessor, firstIn_map, those_map]
  cases hm : n.child? role with
  | some m =>
    have hmem := List.mem_of_find?_eq_some hm
    refine (foretold_block (h m (.child hmem)) (h.of_mem hmem)).bind fun body hbody =>
      .pure fun load => ?_
    rw [Option.map_some]
    dsimp only
    rw [← hbody]
    rfl
  | none =>
    simp only [Option.map_none, List.find?_map, Function.comp_def, Site.text,
      node_site, node_forecast]
    cases hfound : (n.childrenOf .accessor).find? (·.text == keyword) with
    | none => exact .pure fun _ => rfl
    | some accessor =>
      have hmem := mem_children_of_mem_childrenOf (List.mem_of_find?_eq_some hfound)
      simp only [Option.map_some, children_site, Option.elim_some, Forecast.bodyErrors,
        children_forecast]
      refine (foretold_blockIn (h.of_mem hmem) "body").bind fun body hbody => .pure fun load => ?_
      rw [← hbody]
      rfl

theorem foretold_readVariable (owner : Node) :
    Ensures tables (readVariable n n.childSites owner) fun item =>
      item.name = n.text ∧
        partErrors item.parts = Forecast.variableErrors (n.childForecasts tables) := by
  refine (foretold_valueIn h "initializer").bind fun value hvalue => ?_
  refine (foretold_readAccessor h "getter" "get").bind fun getter hgetter => ?_
  refine (foretold_readAccessor h "setter" "set").bind fun setter hsetter => ?_
  refine (ensures_place _).bind fun span _ => .pure ⟨rfl, funext fun load => ?_⟩
  rw [Variable.parts, partErrors_append, partErrors_append, hgetter, hsetter,
    Forecast.variableErrors, Pi.add_apply, Pi.add_apply, Forecast.valueIn, elim_exprErrors hvalue]
  cases value <;> simp

omit h in
theorem ofVariable_carryTypes (items : List Variable) :
    (carryTypes items).1.map Waiting.ofVariable = items.map Waiting.ofVariable := by
  induction items with
  | nil => rfl
  | cons item rest ih =>
    rw [carryTypes]
    dsimp only
    split <;> rw [List.map_cons, List.map_cons, ih]
    rfl

theorem foretold_readBindings :
    Ensures tables (readBindings n n.childSites) fun bindings =>
      bindings.map Waiting.ofVariable =
        (Forecast.those (n.childForecasts tables) .patternBinding).map fun binding =>
          ⟨binding.node.text, Forecast.variableErrors binding.children⟩ := by
  rw [readBindings, ofKind_map_site, those_map, List.map_map]
  refine (ensures_mapM_site fun binding hbinding => ?_).bind fun bindings hbindings =>
    .pure ((ofVariable_carryTypes bindings).trans hbindings)
  rw [node_site, children_site, Function.comp_apply, node_forecast, children_forecast]
  refine (foretold_readVariable (h.of_mem (mem_children_of_mem_childrenOf hbinding)) n).mono ?_
  rintro item ⟨hname, herrors⟩
  rw [Waiting.ofVariable, hname, herrors]

/-! ## All declarations -/

omit h in
/-- Only bindings and declarations of names change what is pending. -/
theorem item_of_ensures {reading : Adapter (List Stmt)} {count : Count}
    {before after : AdapterState}
    {stmts : List Stmt} (hruns : Runs tables reading before stmts after)
    (hreading : Ensures tables reading (stmtErrors · = count)) :
    (stmtErrors stmts, after.waiting) =
      (count, before.waiting) := by
  obtain ⟨hpending, hcount⟩ := hreading _ _ _ hruns
  rw [AdapterState.waiting, hpending, hcount]

theorem foretold_readVarDecl {before after : AdapterState} {s : Stmt}
    (hruns : Runs tables (readVarDecl n n.childSites) before s after) :
    (s.errors, after.waiting) =
      if before.waiting.isEmpty then
        (Forecast.variableErrors (n.childForecasts tables),
          before.waiting)
      else
        ((before.waiting.find? (·.name = n.text)).elim 1 Waiting.errors,
          before.waiting.eraseP (·.name = n.text)) := by
  have hdeclare : ∀ item : Variable, (Stmt.declare item).errors = partErrors item.parts :=
      fun item =>
    funext fun load => (Stmt.errors_eq _).trans (Nat.zero_add _)
  have hwaiting (pending : Pending) : (pending.map Waiting.ofVariable).find? (·.name = n.text) =
      (pending.find? (·.name = n.text)).map Waiting.ofVariable := List.find?_map
  have hleft (pending : Pending) : (pending.map Waiting.ofVariable).eraseP (·.name = n.text) =
      (pending.eraseP (·.name = n.text)).map Waiting.ofVariable := List.eraseP_map
  unfold AdapterState.waiting
  cases varDeclRead_of_runs hruns with
  | fresh hnone hitem =>
    obtain ⟨hpending, -, herrors⟩ := foretold_readVariable h n _ _ _ hitem
    rw [hpending, hnone, hdeclare, herrors]
    rfl
  | paired hfound hpending =>
    rw [List.isEmpty_map, if_neg (by rintro hempty; simp_all), hwaiting, hfound, hleft, hpending,
      hdeclare]
    rfl
  | unpaired hsome hnone hpending =>
    rw [List.isEmpty_map, if_neg (by simpa using hsome), hwaiting, hnone, hleft,
      List.eraseP_of_forall_not (by simpa using hnone), hpending]
    rfl

theorem foretold_bufferBindings {before after : AdapterState}
    (hruns : Runs tables (bufferBindings n n.childSites) before () after) :
    after.waiting = before.waiting ++
      (Forecast.those (n.childForecasts tables) .patternBinding).map fun binding =>
        ⟨binding.node.text, Forecast.variableErrors binding.children⟩ := by
  obtain ⟨bindings, middle, hbindings, hrest⟩ := runs_bind hruns
  obtain ⟨hpending, hwaiting⟩ := foretold_readBindings h _ _ _ hbindings
  obtain ⟨_, _, hget, hset⟩ := runs_bind hrest
  obtain ⟨rfl, rfl⟩ := runs_get hget
  unfold AdapterState.waiting
  rw [runs_setPending hset, List.map_append, hpending, hwaiting]

/-- Any other declaration leaves what is pending alone. -/
theorem foretold_plainDeclaration (hgroup : n.kind ≠ .patternBindingDecl)
    (hdecl : n.kind ≠ .varDecl) :
    Ensures tables (readDeclaration n n.childSites) fun stmts => ∀ waiting,
      Forecast.declaration n (n.childForecasts tables) waiting =
        (stmtErrors stmts, waiting) := by
  refine (ensures_place _).bind fun span _ => ?_
  have hmembers : ∀ (build : List Stmt → Stmt),
      (∀ members, (build members).errors = stmtErrors members) →
      Ensures tables (do return [build (← readMembers n.childSites)])
        fun stmts => ∀ waiting : List Waiting,
          (Forecast.members (n.childForecasts tables), waiting) =
            (stmtErrors stmts, waiting) :=
    fun build hbuild => (foretold_readMembers h).bind fun members hmembers =>
      .pure fun waiting => Prod.ext (hmembers.symm.trans (hbuild members).symm) rfl
  simp only [Forecast.declaration]
  revert hgroup hdecl
  cases n.kind <;> intro hgroup hdecl
  case importDecl => exact .pure fun _ => rfl
  case classDecl | structDecl | protocolDecl | extensionDecl =>
    refine hmembers _ fun members => funext fun load => (Stmt.errors_eq _).trans ?_
    simp [Stmt.parts]
  case enumDecl =>
    refine (foretold_elements h).bind fun elements helements => ?_
    refine (foretold_readMembers h).bind fun members hmembers => .pure fun waiting => ?_
    refine Prod.ext (funext fun load => ?_) rfl
    dsimp only
    rw [Pi.add_apply, ← helements, ← hmembers, stmtErrors_cons, Stmt.errors_eq]
    simp only [Stmt.ownErrors, Stmt.parts, partErrors_append, partErrors_flatMap, partErrors_cons,
      partErrors_nil, errors_stmts, stmtErrors_nil, Nat.zero_add, Nat.add_zero]
    refine congrArg (List.sum · + _) (List.map_congr_left fun element _ => ?_)
    cases element.rawValue <;> simp
  case functionDecl | initializerDecl =>
    exact (foretold_readFunction h).bind fun s hs => .pure fun _ => Prod.ext hs.symm rfl
  case patternBindingDecl => exact absurd rfl hgroup
  case varDecl => exact absurd rfl hdecl
  all_goals exact (ensures_errorStmt n _ _).bind fun s hs => .pure fun _ => Prod.ext hs.symm rfl

theorem foretold_readDeclaration {before after : AdapterState} {stmts : List Stmt}
    (hruns : Runs tables (readDeclaration n n.childSites) before stmts after) :
    (stmtErrors stmts, after.waiting) =
      Forecast.declaration n (n.childForecasts tables)
        before.waiting := by
  by_cases hgroup : n.kind = .patternBindingDecl
  · obtain ⟨start, hstart, hbuffer, rfl⟩ := runs_group hgroup hruns
    rw [Forecast.declaration, hgroup, AdapterState.waiting, AdapterState.waiting, ← hstart]
    exact Prod.ext rfl (foretold_bufferBindings h hbuffer)
  by_cases hdecl : n.kind = .varDecl
  · obtain ⟨start, hstart, s, hread, rfl⟩ := runs_varDecl hdecl hruns
    rw [Forecast.declaration, hdecl, AdapterState.waiting, AdapterState.waiting, ← hstart]
    exact foretold_readVarDecl h hread
  · obtain ⟨hpending, hdeclaration⟩ := foretold_plainDeclaration h hgroup hdecl _ _ _ hruns
    rw [hdeclaration, AdapterState.waiting, hpending]

theorem foretold_readItem {expr : Adapter Expr} {conditional : Adapter Stmt} {outline : Outline}
    {count : Count} (hexpr : Ensures tables expr (·.outline = outline))
    (hconditional : Ensures tables conditional (·.errors = count)) {before after : AdapterState}
    {stmts : List Stmt}
    (hruns : Runs tables (readItem n n.childSites expr conditional) before stmts after) :
    (stmtErrors stmts, after.waiting) =
      Forecast.itemOf tables n (n.childForecasts tables) outline count
        before.waiting := by
  obtain ⟨_, _, hread, hrest⟩ := runs_bind hruns
  obtain ⟨rfl, rfl⟩ := runs_read hread
  rw [Forecast.itemOf]
  by_cases hignore : tables.directives.has n.head.offset .ignore = true
  · rw [if_pos hignore] at hrest ⊢
    exact item_of_ensures hrest (.pure rfl)
  rw [if_neg hignore] at hrest ⊢
  cases hcode : tables.directives.payload? n.head.offset .literal with
  | some code =>
    rw [hcode] at hrest
    exact item_of_ensures hrest ((ensures_place _).bind fun span _ => .pure rfl)
  | none =>
    simp only [hcode, Option.isSome_none, Bool.false_eq_true, if_false] at hrest ⊢
    split at hrest
    next hdeclaration =>
      rw [if_pos hdeclaration]
      exact foretold_readDeclaration h hrest
    next hdeclaration =>
      rw [if_neg hdeclaration]
      exact item_of_ensures hrest (foretold_readStatement h hexpr hconditional)

end

/-- Every node is read as forecast. -/
theorem foretold (tables : SideTables) (n : Node) : Foretold tables n := by
  induction n using Node.below_induction with
  | h n ih =>
    have hexpr := foretold_readExpr ih
    have hconditional := foretold_readIf ih
    refine ⟨?_, ?_, ?_, ?_, ?_, ?_⟩
    · rw [expr_site, forecast_eq]
      exact hexpr
    · rw [operators_site, forecast_eq]
      exact foretold_readOperators ih hexpr
    · rw [pattern_site, forecast_eq]
      exact foretold_readPattern ih
    · rw [loopVariable_site, forecast_eq]
      exact foretold_readLoopVariable ih
    · rw [conditional_site, forecast_eq]
      exact hconditional
    · rw [item_site, forecast_eq]
      exact fun before stmts after => foretold_readItem ih hexpr hconditional

/-! ## Files -/

def FileParts.errors (parts : FileParts) : Count :=
  stmtErrors parts.declarations + stmtErrors parts.statements + stmtErrors parts.comments

theorem FileParts.errors_add (parts : FileParts) (kind : NodeKind) (stmts : List Stmt) :
    (parts.add kind stmts).errors = parts.errors + stmtErrors stmts := by
  funext load
  rw [FileParts.add]
  split
  · simp [FileParts.errors]
    omega
  · split <;> (simp [FileParts.errors]; omega)

theorem foretold_readParts {nodes : List Node} {parts read : FileParts}
    {before after : AdapterState} (h : Runs tables (readParts parts nodes) before read after) :
    (read.errors, after.waiting) =
      let items := Forecast.items (nodes.map (Node.forecast tables)) before.waiting
      (parts.errors + items.1, items.2) := by
  induction nodes generalizing parts before with
  | nil =>
    obtain ⟨rfl, rfl⟩ := runs_pure h
    rfl
  | cons n rest ih =>
    obtain ⟨stmts, middle, hitem, hrest⟩ := runs_bind h
    rw [ih hrest, FileParts.errors_add, List.map_cons, Forecast.items,
      ← (foretold tables n).item _ _ _ hitem]
    simp only [add_assoc]

/-- What a file is adapted to is what its nodes are read as, whatever others recorded. -/
theorem runs_adapt (path : String) (root : Node) (tables : SideTables)
    (origins : Option OriginCache) :
    ∃ after, Runs tables (readFile path root) {} (adapt path root tables origins).file after := by
  cases origins with
  | none => exact ⟨_, Exchange.reaches_alone (reading path root tables)⟩
  | some cache => exact ⟨_, Exchange.reaches_run (reading path root tables) cache⟩

theorem errors_readFile {path : String} {root : Node} {before after : AdapterState}
    {file : SourceFile}
    (hnone : before.pending = []) (h : Runs tables (readFile path root) before file after) :
    file.placeholders.length = root.errors tables := by
  obtain ⟨_, _, hread, h⟩ := runs_bind h
  obtain ⟨rfl, rfl⟩ := runs_read hread
  obtain ⟨parts, middle, hparts, h⟩ := runs_bind h
  obtain ⟨_, last, hleft, h⟩ := runs_bind h
  obtain ⟨left, _, htake, hleft⟩ := runs_bind hleft
  obtain ⟨rfl, rfl⟩ := runs_takePending htake
  obtain ⟨rfl, rfl⟩ := runs_pure hleft
  obtain ⟨rfl, rfl⟩ := runs_pure h
  have hitems := foretold_readParts hparts
  unfold AdapterState.waiting at hitems
  rw [hnone, List.map_nil] at hitems
  obtain ⟨herrors, hpending⟩ := Prod.mk.inj hitems
  have hlength := congrArg List.length hpending
  rw [List.length_map] at hlength
  have hzero := congrFun herrors 0
  simp only [FileParts.errors, Pi.add_apply, stmtErrors_nil, Nat.zero_add] at hzero
  rw [length_placeholders, FileParts.close, stmtErrors_append, stmtErrors_append,
    stmtErrors_danglingBinding, hlength]
  show _ = (Forecast.items _ []).1 0 + (Forecast.items _ []).2.length
  rw [← hzero]
  dsimp only
  omega

theorem length_placeholders_adapt (path : String) (root : Node) (tables : SideTables)
    (origins : Option OriginCache) :
    (adapt path root tables origins).file.placeholders.length = root.errors tables := by
  obtain ⟨after, h⟩ := runs_adapt path root tables origins
  exact errors_readFile rfl h

end Ferry.Source
