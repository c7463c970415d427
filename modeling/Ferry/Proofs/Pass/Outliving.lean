/-
  Ferry.Proofs.Pass.Outliving

  No pass drops a function or an enumeration.  Passes move statements to other places and change the
  expressions in them, and drop some statements and cases that are of no use; what they drop
  declares nothing.  So a demand on declarations outside expressions that a file meets after a pass
  it met before it (`Transform.Reflects`), and a declaration that was there is there in the end.
  Whatever a file tells of its enumerations it still tells after all passes (`exists_mem_finished`).
-/
import Ferry.Proofs.Pass.Enumeration

namespace Ferry

/-! ## Where statements stand -/

inductive Stands : Place → Fragment → Place → Stmt → Prop where
  | here {place : Place} {list : List Stmt} {s : Stmt} (hs : s ∈ list) :
      Stands place (.stmts list) place s
  | inStmt {place within : Place} {list : List Stmt} {s found : Stmt} {part : Part} (hs : s ∈ list)
      (hpart : part ∈ s.parts) (h : Stands (place.step part.1) part.2 within found) :
      Stands place (.stmts list) within found
  | inExpr {place within : Place} {called : Bool} {e : Expr} {found : Stmt} {part : Part}
      (hpart : part ∈ e.parts) (h : Stands (place.step part.1) part.2 within found) :
      Stands place (.expr called e) within found

/-- That a statement stands at a place in a file. -/
def SourceFile.Has (file : SourceFile) (place : Place) (s : Stmt) : Prop :=
  Stands {} (.stmts (file.declarations ++ file.statements)) place s

def absent (P : Place → Stmt → Prop) : Demand where
  stmt place s := ¬P place s

section

variable {P : Place → Stmt → Prop}

theorem met_absent_iff {place : Place} {fragment : Fragment} :
    (absent P).Met place fragment ↔ ∀ within s, Stands place fragment within s → ¬P within s := by
  constructor
  · intro h within s hs
    induction hs with
    | here hs => exact ((Demand.met_stmts_iff.mp h).1 _ hs).1
    | inStmt hs hpart _ ih => exact ih (((Demand.met_stmts_iff.mp h).1 _ hs).2 _ hpart)
    | inExpr hpart _ ih => exact ih ((Demand.met_expr_iff.mp h).2 _ hpart)
  · intro h
    induction place, fragment using Fragment.induction with
    | expr place called e ih =>
      exact .expr trivial fun part hpart => ih part hpart fun _ _ hs => h _ _ (.inExpr hpart hs)
    | stmts place list ih =>
      refine .stmts (fun s hs => h _ _ (.here hs)) trivial fun s hs part hpart => ?_
      exact ih s hs part hpart fun _ _ hfound => h _ _ (.inStmt hs hpart hfound)

theorem metFile_absent_iff {file : SourceFile} :
    (absent P).MetFile file ↔ ∀ place s, file.Has place s → ¬P place s := by
  have hlist : (absent P).MetFile file ↔
      (absent P).Met {} (.stmts (file.declarations ++ file.statements)) := by
    simp only [Demand.MetFile, Demand.met_stmts_iff, List.forall_mem_append,
      List.forall_mem_singleton, show ∀ list, (absent P).block list from fun _ => trivial, and_true]
  rw [hlist]
  exact met_absent_iff

theorem not_metFile_absent_iff {file : SourceFile} :
    ¬(absent P).MetFile file ↔ ∃ place s, file.Has place s ∧ P place s := by
  rw [metFile_absent_iff]
  push Not
  rfl

end

/-! ## Demands outside expressions -/

/-- That a demand is on statements outside expressions only. -/
structure Demand.IsOuter (d : Demand) : Prop where
  expr : ∀ place called e, d.expr place called e
  stmt : ∀ {place s}, place.inExpr = true → d.stmt place s
  level : d.IsLevel

theorem Place.inExpr_step {place : Place} (h : place.inExpr = true) (step : Step) :
    (place.step step).inExpr = true := by
  cases step <;> first | rfl | exact h

namespace Demand.IsOuter

variable {d : Demand}

theorem met_of_inExpr (hd : d.IsOuter) {place : Place} {fragment : Fragment}
    (hplace : place.inExpr = true) : d.Met place fragment := by
  induction place, fragment using Fragment.induction with
  | expr place called e ih =>
    exact .expr (hd.expr ..) fun part hpart => ih part hpart (Place.inExpr_step hplace part.1)
  | stmts place list ih =>
    exact .stmts (fun _ _ => hd.stmt hplace) (hd.level.block list)
      fun s hs part hpart => ih s hs part hpart (Place.inExpr_step hplace part.1)

theorem met_expr (hd : d.IsOuter) {place : Place} {called : Bool} {e : Expr} :
    d.Met place (.expr called e) := by
  refine .expr (hd.expr ..) fun part hpart => ?_
  obtain hstep | ⟨parameters, body, info, -, rfl⟩ := Expr.step_of_mem_parts hpart
  · rw [hstep]
    exact hd.met_of_inExpr rfl
  · exact hd.met_of_inExpr rfl

theorem metParts_values (hd : d.IsOuter) {place : Place} (es : List Expr) :
    d.MetParts place (es.map .value) :=
  Demand.metParts_map.mpr fun _ _ => hd.met_expr

theorem tame (hd : d.IsOuter) : d.IsTame :=
  ⟨⟨iff_of_true (hd.expr ..) (hd.expr ..)⟩, fun _ _ => hd.expr ..⟩

end Demand.IsOuter

def Stmt.isDeclared : Stmt → Bool
  | .function .. | .enumDecl .. => true
  | _ => false

/-- That a demand is on calls, functions and enumerations, and does not look at receivers and
companions. -/
structure Demand.IsSparse (d : Demand) : Prop where
  steady : d.IsSteady
  free : ∀ {place called e}, e.isCall = false → d.expr place called e
  level : d.IsLevel
  other : ∀ {place s}, s.isDeclared = false → d.stmt place s
  receiver : ∀ {place extended s}, d.stmt place (Pass.withReceiver extended s) → d.stmt place s
  hoist : ∀ {place s}, d.stmt place (Pass.hoistStmt s) → d.stmt place s

/-- That a demand is on functions and enumerations outside expressions, and does not look at
receivers and companions. -/
structure Demand.IsOfDeclarations (d : Demand) : Prop extends d.IsOuter where
  other : ∀ {place s}, s.isDeclared = false → d.stmt place s
  receiver : ∀ {place extended s}, d.stmt place (Pass.withReceiver extended s) → d.stmt place s
  hoist : ∀ {place s}, d.stmt place (Pass.hoistStmt s) → d.stmt place s

theorem Demand.IsOfDeclarations.isSparse {d : Demand} (hd : d.IsOfDeclarations) : d.IsSparse :=
  ⟨hd.tame.steady, fun _ => hd.expr .., hd.level, hd.other, hd.receiver, hd.hoist⟩

namespace Transform

/-- That a transform changes parts of nodes only in a way in which a demand on a node can be seen to
have been met. -/
structure Shows (t : Transform) (d : Demand) : Prop where
  expr : ∀ {place called e}, d.expr place called (e.mapParts (t.change place.owner)) →
    d.expr place called e
  stmt : ∀ {place s}, d.stmt place (s.mapParts (t.change place.owner)) → d.stmt place s

/-- That what a transform makes meets a demand only if what it is made of met one. `walked` is on
nodes whose parts have been changed. -/
structure Reflects (t : Transform) (walked d d' : Demand) : Prop where
  own_expr : ∀ {place called e}, walked.expr place called (e.mapParts (t.change place.owner)) →
    d.expr place called e
  own_stmt : ∀ {place s}, walked.stmt place (s.mapParts (t.change place.owner)) → d.stmt place s
  expr : ∀ {place called e}, d'.Met place (.expr called (t.expr called e)) →
    walked.expr place called e ∧ d'.MetParts place e.parts
  skip : ∀ {place called e}, t.enters e = false → d'.Met place (.expr called e) →
    d.Met place (.expr called e)
  descends : ∀ s, t.descends s = true
  stmt : ∀ {place s}, (∀ made ∈ t.stmt place.owner s, d'.MetStmt place made) →
    walked.stmt place s ∧ d'.MetParts place s.parts
  block : ∀ {place list}, (∀ s ∈ t.block list, d'.MetStmt place s) → ∀ s ∈ list, d'.MetStmt place s

namespace Reflects

variable {t : Transform} {walked d d' : Demand}

theorem met (h : t.Reflects walked d d') (hblock : ∀ list, d.block list) {place : Place}
    {fragment : Fragment} (hmet : d'.Met place (t.onFragment place.owner fragment)) :
    d.Met place fragment := by
  have hparts : ∀ {place : Place} {parts : List Part},
      d'.MetParts place (parts.map (t.change place.owner).onPart) →
      (∀ part ∈ parts, d'.Met (place.step part.1) (t.onFragment (place.step part.1).owner part.2) →
        d.Met (place.step part.1) part.2) → d.MetParts place parts := by
    intro place parts h ih part hpart
    have hmade := h _ (List.mem_map_of_mem hpart)
    rw [onPart_change] at hmade
    exact ih part hpart (Place.owner_step place part.1 ▸ hmade)
  induction place, fragment using Fragment.induction with
  | expr place called e ih =>
    -- The transform sees the node with its parts changed: first it gives back what is asked of
    -- these, and then the induction hypothesis what is asked of the parts themselves.
    rw [onFragment, onExpr_eq_mapParts] at hmet
    split at hmet
    next =>
      obtain ⟨hwalked, hmade⟩ := h.expr hmet
      rw [Expr.parts_mapParts] at hmade
      exact .expr (h.own_expr hwalked) (hparts hmade ih)
    next henters => exact h.skip (eq_false_of_ne_true henters) hmet
  | stmts place list ih =>
    rw [onFragment, onStmts_eq] at hmet
    have hlist := h.block (Demand.met_stmts_iff.mp hmet).1
    refine Demand.met_stmts_iff.mpr ⟨fun s hs => ?_, hblock list⟩
    have hmade : ∀ made ∈ t.stmt place.owner (s.mapParts (t.change place.owner)),
        d'.MetStmt place made := by
      intro made hmade
      refine hlist made (List.mem_flatMap.mpr ⟨s, hs, ?_⟩)
      rwa [onStmt_eq, if_pos (h.descends s)]
    obtain ⟨hwalked, hmade⟩ := h.stmt hmade
    rw [Stmt.parts_mapParts] at hmade
    exact ⟨h.own_stmt hwalked, hparts hmade (ih s hs)⟩

theorem metFile (h : t.Reflects walked d d') (hblock : ∀ list, d.block list)
    (hblock' : ∀ list, d'.block list) {file : SourceFile} (hmet : d'.MetFile (t.onFile file)) :
    d.MetFile file := by
  have hlist : ∀ {list}, d'.Met {} (.stmts (t.onStmts none list)) → d.Met {} (.stmts list) :=
    fun hlist => h.met hblock hlist
  refine ⟨fun s hs => hlist (Demand.met_stmts_iff.mpr ⟨fun made hmade => ?_, hblock' _⟩),
    hlist hmet.2⟩
  have hmade := hmet.1 made (List.mem_flatMap.mpr ⟨s, hs, hmade⟩)
  exact (Demand.met_stmts_iff.mp hmade).1 made (List.mem_singleton_self _)

theorem of_stmt {enters : Expr → Bool} {f : Stmt → Stmt}
    (hown : Shows { enters, stmt := fun _ s => [f s] } d)
    (made : ∀ {place s}, d.stmt place (f s) → d.stmt place s)
    (parts : ∀ {place s}, d.MetParts place (f s).parts → d.MetParts place s.parts) :
    Reflects { enters, stmt := fun _ s => [f s] } d d d where
  own_expr := hown.expr
  own_stmt := hown.stmt
  expr := Demand.met_expr_iff.mp
  skip _ h := h
  descends _ := rfl
  stmt h := (h _ (List.mem_singleton_self _)).imp made parts
  block h := h

theorem of_expr {f : Bool → Expr → Expr} (hown : Shows { expr := f } d)
    (hexpr : ∀ {place called e}, d.Met place (.expr called (f called e)) →
      d.expr place called e ∧ d.MetParts place e.parts) : Reflects { expr := f } d d d where
  own_expr := hown.expr
  own_stmt := hown.stmt
  expr := hexpr
  skip henters := absurd henters Bool.true_eq_false.mp
  descends _ := rfl
  stmt h := h _ (List.mem_singleton_self _)
  block h := h

end Reflects

end Transform

namespace Pass

variable {d : Demand} {place : Place}

/-! ## Expressions -/

theorem met_of_unparenthesized (hd : d.IsSparse) {called called' : Bool} {e : Expr} :
    d.Met place (.expr called e.unparenthesized) → d.Met place (.expr called' e) := by
  have hanywhere : ∀ {called called' e}, d.Met place (.expr called e) →
      d.Met place (.expr called' e) :=
    fun {_ _ e} h => hd.steady.met_iff.mp
      (show d.Met (place.step .value) (.expr false e) from hd.steady.met_iff.mpr h)
  fun_induction Expr.unparenthesized e generalizing called' with
  | case1 inner info ih =>
    intro h
    have hinner : d.Met place (.expr called inner) := ih h
    exact .expr (hd.free rfl) (Demand.metParts_singleton.mpr (hd.steady.met_iff.mpr hinner))
  | case2 => exact hanywhere

/-- What is an expression without parts once its parentheses are gone meets the demand. -/
theorem met_of_leaf (hd : d.IsSparse) {called : Bool} {e leaf : Expr}
    (he : e.unparenthesized = leaf)
    (hleaf : leaf.isCall = false) (hparts : leaf.parts = []) : d.Met place (.expr called e) := by
  have hmet : d.Met place (.expr called leaf) :=
    .expr (hd.free hleaf) (hparts ▸ Demand.metParts_nil)
  exact met_of_unparenthesized hd (he ▸ hmet)

theorem met_of_isSelf (hd : d.IsSparse) {called : Bool} {e : Expr} (h : isSelf e = true) :
    d.Met place (.expr called e) := by
  rw [isSelf, beq_iff_eq, Expr.referencedName?] at h
  split at h
  next heq => exact met_of_leaf hd heq rfl rfl
  next => exact absurd h (Option.some_ne_none _).symm

theorem met_of_isSelfInit (hd : d.IsSparse) {called : Bool} {e : Expr} (h : isSelfInit e = true) :
    d.Met place (.expr called e) := by
  unfold isSelfInit at h
  split at h
  next =>
    refine .expr (hd.free rfl) (Demand.metParts_singleton.mpr (met_of_isSelf hd ?_))
    exact (Bool.and_eq_true_iff.mp h).2
  next => exact absurd h Bool.false_ne_true

theorem met_of_isNil (hd : d.IsSparse) {called : Bool} {e : Expr} (h : e.isNil = true) :
    d.Met place (.expr called e) := by
  rw [Expr.isNil] at h
  split at h
  next heq => exact met_of_leaf hd heq rfl rfl
  next => exact absurd h Bool.false_ne_true

theorem met_of_unwrapExpr (hd : d.IsSparse) {called : Bool} {e : Expr}
    (h : d.Met place (.expr called (unwrapExpr e))) :
    d.expr place called e ∧ d.MetParts place e.parts := by
  obtain ⟨hown, hparts⟩ := Demand.met_expr_iff.mp h
  cases e with
  | paren inner info =>
    refine ⟨hd.free rfl, ?_⟩
    rw [unwrapExpr] at h
    -- What takes the place of the parentheses is the part that is asked about, or all is as it was.
    split at h
    next => exact Demand.metParts_singleton.mpr (hd.steady.met_iff.mpr h)
    next => exact (Demand.met_expr_iff.mp h).2
  | tuple elements info =>
    refine ⟨hd.free rfl, ?_⟩
    simp only [unwrapExpr, Expr.parts, List.map_map, Demand.metParts_map] at hparts ⊢
    exact fun argument hargument => met_of_unparenthesized hd (hparts argument hargument)
  | shuffle slots info =>
    refine ⟨hd.free rfl, ?_⟩
    simp only [unwrapExpr, Expr.parts, List.flatMap_map, Demand.metParts_flatMap,
      Slot.values_mapValues, List.map_map, Demand.metParts_map] at hparts ⊢
    exact fun slot hslot e he => met_of_unparenthesized hd (hparts slot hslot e he)
  | _ => exact ⟨hown, hparts⟩

theorem metParts_of_unwrapStmt (hd : d.IsSparse) {s : Stmt}
    (h : d.MetParts place (unwrapStmt s).parts) : d.MetParts place s.parts := by
  cases s with
  | ifStmt conditions body otherwise isGuard span =>
    obtain ⟨hconditions, hbodies⟩ := Demand.metParts_append.mp h
    refine Demand.metParts_append.mpr
      ⟨Demand.metParts_flatMap.mpr fun condition hcondition => ?_, hbodies⟩
    have hmade := Demand.metParts_flatMap.mp hconditions _ (List.mem_map_of_mem hcondition)
    cases condition with
    | test e =>
      exact Demand.metParts_singleton.mpr
        (met_of_unparenthesized hd (Demand.metParts_singleton.mp hmade))
    | binding item => exact hmade
  | whileLoop | switchStmt =>
    exact Demand.metParts_cons.mpr (And.imp_left (met_of_unparenthesized hd)
      (Demand.metParts_cons.mp h))
  | returnStmt value span =>
    cases value with
    | none => exact h
    | some e =>
      exact Demand.metParts_singleton.mpr
        (met_of_unparenthesized hd (Demand.metParts_singleton.mp h))
  | _ => exact h

theorem met_of_withoutNegation (hd : d.IsSparse) {called : Bool} {e : Expr} :
    d.Met place (.expr called (withoutNegation e).1) → d.Met place (.expr called e) := by
  fun_cases withoutNegation e with
  | case1 =>
    exact fun h => .expr (hd.free rfl) (Demand.metParts_singleton.mpr (hd.steady.met_iff.mpr h))
  | case3 => exact fun h => .expr (hd.free rfl) (Demand.met_expr_iff.mp h).2
  | _ => exact id

theorem metParts_of_cancelNegation (hd : d.IsSparse) {s : Stmt} :
    d.MetParts place (cancelNegation s).parts → d.MetParts place s.parts := by
  fun_cases cancelNegation s with
  | case1 e body otherwise span condition isNegated hcondition =>
    intro h
    obtain ⟨htest, hbodies⟩ := Demand.metParts_cons.mp h
    have hinner : d.Met (place.step .value) (.expr false e.unparenthesized) :=
      met_of_withoutNegation hd (by rw [hcondition]; exact htest)
    exact Demand.metParts_cons.mpr ⟨met_of_unparenthesized hd hinner, hbodies⟩
  | case2 => exact id

theorem met_of_comparedWithNil (hd : d.IsSparse) {called called' : Bool} {condition checked : Expr}
    (hchecked : comparedWithNil? condition = some checked)
    (h : d.Met place (.expr called checked)) :
    d.Met place (.expr called' condition) := by
  have hside : d.Met (place.step .value) (.expr false checked) := hd.steady.met_iff.mpr h
  unfold comparedWithNil? at hchecked
  split at hchecked
  next lhs op rhs info hbinary =>
    -- One side is the expression that is checked, the other is `nil`, of which nothing is asked.
    suffices hsides : d.Met place (.expr called (.binary lhs op rhs info)) from
      met_of_unparenthesized hd (hbinary ▸ hsides)
    refine .expr (hd.free rfl) (Demand.metParts_cons.mpr ?_)
    split_ifs at hchecked
    split at hchecked
    next hlhs hrhs =>
      obtain rfl := Option.some.inj hchecked
      exact ⟨hside, Demand.metParts_singleton.mpr (met_of_isNil hd hrhs)⟩
    next hlhs hrhs =>
      obtain rfl := Option.some.inj hchecked
      exact ⟨met_of_isNil hd hlhs, Demand.metParts_singleton.mpr hside⟩
    next => exact absurd hchecked (Option.some_ne_none _).symm
  next => exact absurd hchecked (Option.some_ne_none _).symm

theorem metParts_of_returnForNil (hd : d.IsSparse) {s : Stmt} :
    d.MetParts place (returnForNil s).parts → d.MetParts place s.parts := by
  fun_cases returnForNil s with
  | case1 condition inner span checked hchecked =>
    intro h
    -- What is dropped, `nil` and a bare `return`, meets the demand in any case.
    obtain ⟨-, hsides⟩ := Demand.met_expr_iff.mp (Demand.metParts_singleton.mp h)
    obtain ⟨hvalue, -⟩ := Demand.metParts_cons.mp hsides
    have hvalue : d.Met (place.step .value) (.expr false checked) := hd.steady.met_iff.mp hvalue
    refine Demand.metParts_cons.mpr ⟨met_of_comparedWithNil hd hchecked hvalue, ?_⟩
    refine Demand.metParts_singleton.mpr ((met_body hd.level).mpr ?_)
    exact List.forall_mem_singleton.mpr ⟨hd.other rfl, Demand.metParts_nil⟩
  | case2 | case3 => exact id

/-! ## Switches -/

theorem met_of_checkCase (hd : d.IsSparse) {subject e : Expr} :
    d.Met (place.step .value) (.expr false (checkCase subject e)) →
      d.Met (place.step .value) (.expr false e) := by
  fun_cases checkCase subject e with
  | case1 =>
    intro h
    obtain ⟨-, hpattern⟩ := Demand.metParts_cons.mp (Demand.met_expr_iff.mp h).2
    exact hd.steady.met_iff.mp (Demand.metParts_singleton.mp hpattern)
  | case2 => exact id

theorem metParts_of_checkCases (hd : d.IsSparse) {s : Stmt} :
    d.MetParts place (checkCases s).parts → d.MetParts place s.parts := by
  fun_cases checkCases s with
  | case1 subject cases target span =>
    rw [metParts_switch, metParts_switch, List.forall_mem_map]
    refine And.imp_right (And.imp_left fun h c hc => ?_)
    obtain ⟨hpatterns, hbody⟩ := metParts_case.mp (h c hc)
    rw [List.forall_mem_map] at hpatterns
    exact metParts_case.mpr ⟨fun e he => met_of_checkCase hd (hpatterns e he), hbody⟩
  | case2 => exact id

theorem metStmt_of_dropBreak (hd : d.IsSparse) {body : List Stmt}
    (h : ∀ s ∈ dropBreak body, d.MetStmt place s) : ∀ s ∈ body, d.MetStmt place s := by
  unfold dropBreak at h
  split at h
  next span hlast =>
    obtain ⟨init, rfl⟩ := List.getLast?_eq_some_iff.mp hlast
    rw [List.dropLast_concat] at h
    exact List.forall_mem_append.mpr
      ⟨h, List.forall_mem_singleton.mpr ⟨hd.other rfl, Demand.metParts_nil⟩⟩
  next => exact h

theorem metParts_of_dropBreaks (hd : d.IsSparse) {s : Stmt} :
    d.MetParts place (dropBreaks s).parts → d.MetParts place s.parts := by
  fun_cases dropBreaks s with
  | case1 subject cases target span kept =>
    rw [metParts_switch, metParts_switch]
    refine And.imp_right (And.imp_left fun h c hc => ?_)
    have hkept : isIdle { c with body := dropBreak c.body } = false →
        d.MetParts place { c with body := dropBreak c.body }.parts := fun hidle =>
      h _ (List.mem_filter.mpr ⟨List.mem_map_of_mem hc, by simp [hidle]⟩)
    have hmade : (∀ e ∈ c.patterns, d.Met (place.step .value) (.expr false e)) ∧
        ∀ s ∈ dropBreak c.body, d.MetStmt place s := by
      cases hidle : isIdle { c with body := dropBreak c.body } with
      | false => exact (metParts_case.mp (hkept hidle)).imp_right (met_body hd.level).mp
      | true =>
        -- A case that is dropped has neither patterns nor statements.
        simp only [isIdle, Bool.and_eq_true, List.isEmpty_iff] at hidle
        simp [hidle]
    exact metParts_case.mpr (hmade.imp_right fun hbody =>
      (met_body hd.level).mpr (metStmt_of_dropBreak hd hbody))
  | case2 => exact id

/-- Of a `switch` only its cases and the variable it declares are looked at. -/
theorem metParts_switch_iff (hd : d.IsOuter) {subject : Expr} {cases : List SwitchCase}
    {target : Option SwitchTarget} {span : Option Span} :
    d.MetParts place (Stmt.switchStmt subject cases target span).parts ↔
      (∀ c ∈ cases, ∀ s ∈ c.body, d.MetStmt place s) ∧ ∀ item ∈ target,
      d.MetParts place item.parts := by
  rw [metParts_switch, and_iff_right hd.met_expr]
  refine and_congr_left fun _ => forall₂_congr fun c _ => ?_
  rw [metParts_case, and_iff_right fun _ _ => hd.met_expr]
  exact met_body hd.level

theorem metStmt_of_yielded (hd : d.IsOfDeclarations) {s : Stmt} :
    d.MetStmt place (yielded s) → d.MetStmt place s := by
  fun_cases yielded s with
  | case1 => exact fun _ => ⟨hd.other rfl, Demand.metParts_singleton.mpr hd.met_expr⟩
  | case2 lhs rhs => exact fun _ => ⟨hd.other rfl, hd.metParts_values [lhs, rhs]⟩
  | case3 => exact id

theorem metStmt_of_yieldLast (hd : d.IsOfDeclarations) {c : SwitchCase}
    (h : ∀ s ∈ (yieldLast c).body, d.MetStmt place s) : ∀ s ∈ c.body, d.MetStmt place s := by
  obtain hbody | ⟨init, last, hbody⟩ := List.eq_nil_or_concat' c.body
  · rw [hbody]
    exact nofun
  · rw [yieldLast, hbody, List.dropLast_concat, List.getLast?_concat] at h
    obtain ⟨hinit, hlast⟩ := List.forall_mem_append.mp h
    rw [hbody]
    refine List.forall_mem_append.mpr ⟨hinit, List.forall_mem_singleton.mpr ?_⟩
    exact metStmt_of_yielded hd (hlast _ (List.mem_singleton_self _))

theorem metParts_of_toValue (hd : d.IsOfDeclarations) {s : Stmt} :
    d.MetParts place (toValue s).parts → d.MetParts place s.parts := by
  fun_cases toValue s with
  | case1 subject first rest span target htarget hall =>
    rw [metParts_switch_iff hd.toIsOuter, metParts_switch_iff hd.toIsOuter, List.forall_mem_map]
    exact fun h => ⟨fun c hc => metStmt_of_yieldLast hd (h.1 c hc), by simp⟩
  | case2 | case3 | case4 => exact id

theorem metStmt_of_asInitializer (hd : d.IsOfDeclarations) {item : Variable} {next : Stmt}
    (hjoins : joins item next = true) (h : d.MetStmt place (asInitializer item next)) :
    d.MetStmt place (.declare item) ∧ d.MetStmt place next := by
  obtain ⟨subject, cases, lhs, span, rfl⟩ := eq_switchStmt_of_joins hjoins
  obtain ⟨hcases, hitem⟩ := (metParts_switch_iff hd.toIsOuter).mp h.2
  refine ⟨⟨hd.other rfl, hitem (.declared item) rfl⟩, hd.other rfl, ?_⟩
  -- The place that was assigned to is an expression.
  refine (metParts_switch_iff hd.toIsOuter).mpr ⟨hcases, fun target htarget => ?_⟩
  obtain rfl := Option.some.inj htarget
  exact Demand.metParts_singleton.mpr hd.met_expr

theorem metStmt_of_joinDeclarations (hd : d.IsOfDeclarations) {list : List Stmt}
    (h : ∀ s ∈ joinDeclarations list, d.MetStmt place s) : ∀ s ∈ list, d.MetStmt place s := by
  fun_induction joinDeclarations list with
  | case1 item next rest hjoins ih =>
    obtain ⟨hjoined, hrest⟩ := List.forall_mem_cons.mp h
    obtain ⟨hitem, hnext⟩ := metStmt_of_asInitializer hd hjoins hjoined
    exact List.forall_mem_cons.mpr ⟨hitem, List.forall_mem_cons.mpr ⟨hnext, ih hrest⟩⟩
  | case2 item next rest hjoins ih | case3 s rest hs ih =>
    obtain ⟨hfirst, hrest⟩ := List.forall_mem_cons.mp h
    exact List.forall_mem_cons.mpr ⟨hfirst, ih hrest⟩
  | case4 => exact h

/-! ## Statements that are moved -/

theorem metStmt_of_wrapDefers (hd : d.IsSparse) {list : List Stmt}
    (h : ∀ s ∈ wrapDefers list, d.MetStmt place s) : ∀ s ∈ list, d.MetStmt place s := by
  have hdefer : ∀ {body span}, (∀ s ∈ body, d.MetStmt place s) →
      d.MetStmt place (.deferBlock body span) := fun hbody =>
    ⟨hd.other rfl, Demand.metParts_singleton.mpr ((met_body hd.level).mpr hbody)⟩
  fun_induction wrapDefers list with
  | case1 => exact h
  | case2 body span rest hrest =>
    rw [List.isEmpty_iff.mp hrest]
    exact List.forall_mem_singleton.mpr (hdefer h)
  | case3 body span rest hrest ih =>
    obtain ⟨hrun, hcleanup⟩ := Demand.metParts_cons.mp (List.forall_mem_singleton.mp h).2
    refine List.forall_mem_cons.mpr ⟨hdefer ?_, ih ((met_body hd.level).mp hrun)⟩
    exact (met_body hd.level).mp (Demand.metParts_singleton.mp hcleanup)
  | case4 s rest _ ih =>
    obtain ⟨hfirst, hrest⟩ := List.forall_mem_cons.mp h
    exact List.forall_mem_cons.mpr ⟨hfirst, ih hrest⟩

theorem metStmt_of_spreadExtension (hd : d.IsSparse) {s : Stmt}
    (h : ∀ made ∈ spreadExtension s, d.MetStmt place made) : d.MetStmt place s := by
  cases s with
  | extensionDecl extended inherits members span =>
    refine ⟨hd.other rfl, Demand.metParts_singleton.mpr
      ((met_body hd.level).mpr fun member hmember => ?_)⟩
    obtain ⟨hown, hparts⟩ := h _ (List.mem_map_of_mem hmember)
    rw [parts_withReceiver] at hparts
    exact ⟨hd.receiver hown, hparts⟩
  | _ => exact h _ (List.mem_singleton_self _)

theorem metStmt_companion (hd : d.IsSparse) {members : List Stmt} {span : Option Span} :
    d.MetStmt place (.companion members span) ↔ ∀ s ∈ members, d.MetStmt place s := by
  refine (and_iff_right (hd.other rfl)).trans ?_
  exact Demand.metParts_singleton.trans (met_body hd.level)

theorem metStmt_of_extendCompanion (hd : d.IsSparse) {statics rest : List Stmt}
    (hcompanion : rest.any isCompanion = true)
    (h : ∀ s ∈ extendCompanion statics rest, d.MetStmt place s) :
    (∀ s ∈ statics, d.MetStmt place s) ∧ ∀ s ∈ rest, d.MetStmt place s := by
  fun_induction extendCompanion statics rest with
  | case1 => exact absurd hcompanion Bool.false_ne_true
  | case2 members span rest =>
    obtain ⟨hextended, hrest⟩ := List.forall_mem_cons.mp h
    obtain ⟨hmembers, hstatics⟩ := List.forall_mem_append.mp ((metStmt_companion hd).mp hextended)
    exact ⟨hstatics, List.forall_mem_cons.mpr ⟨(metStmt_companion hd).mpr hmembers, hrest⟩⟩
  | case3 s rest hs ih =>
    have hother : isCompanion s = false := by
      cases s with
      | companion members span => exact absurd rfl (hs members span)
      | _ => rfl
    rw [List.any_cons, hother, Bool.false_or] at hcompanion
    obtain ⟨hfirst, hmore⟩ := List.forall_mem_cons.mp h
    obtain ⟨hstatics, hrest⟩ := ih hcompanion hmore
    exact ⟨hstatics, List.forall_mem_cons.mpr ⟨hfirst, hrest⟩⟩

theorem metStmt_of_hoistStatics (hd : d.IsSparse) {members : List Stmt}
    (h : ∀ s ∈ hoistStatics members, d.MetStmt place s) : ∀ s ∈ members, d.MetStmt place s := by
  have hsplit : (∀ s ∈ members.filter Stmt.isStatic, d.MetStmt place s) ∧
      ∀ s ∈ members.filter (!·.isStatic), d.MetStmt place s := by
    unfold hoistStatics at h
    dsimp only at h
    split_ifs at h with hstatics hcompanion
    · rw [List.isEmpty_iff.mp hstatics]
      exact ⟨nofun, h⟩
    · exact metStmt_of_extendCompanion hd hcompanion h
    · obtain ⟨hmade, hrest⟩ := List.forall_mem_cons.mp h
      exact ⟨(metStmt_companion hd).mp hmade, hrest⟩
  intro s hs
  cases hstatic : s.isStatic with
  | true => exact hsplit.1 s (List.mem_filter.mpr ⟨hs, hstatic⟩)
  | false => exact hsplit.2 s (List.mem_filter.mpr ⟨hs, by rw [hstatic]; rfl⟩)

theorem metParts_of_hoistStmt (hd : d.IsSparse) {s : Stmt} :
    d.MetParts place (hoistStmt s).parts → d.MetParts place s.parts := by
  have hmembers : ∀ {owner : String} {members : List Stmt},
      d.MetParts place [(.members owner, .stmts (hoistStatics members))] →
        d.MetParts place [(.members owner, .stmts members)] := by
    intro owner members
    rw [Demand.metParts_singleton, Demand.metParts_singleton, met_members hd.level,
      met_members hd.level]
    exact metStmt_of_hoistStatics hd
  fun_cases hoistStmt s with
  | case1 | case2 => exact hmembers
  | case3 =>
    rw [Stmt.parts, Stmt.parts, Demand.metParts_append, Demand.metParts_append]
    exact And.imp_right hmembers
  | case4 => exact id

/-! ## Factories -/

theorem metParts_of_returnSelf (hd : d.IsSparse) {name : String}
    (hcall : ∀ {place callee arguments hasTrailing isPure info span}, isSelfInit callee = true →
      d.expr place false (.call (.typeName name { span }) arguments hasTrailing isPure info) →
      d.expr place false (.call callee arguments hasTrailing isPure info)) {s : Stmt} :
    d.MetParts place (returnSelf name s).parts → d.MetParts place s.parts := by
  fun_cases returnSelf name s with
  | case1 lhs rhs span hself => exact fun h => Demand.metParts_cons.mpr ⟨met_of_isSelf hd hself, h⟩
  | case3 callee arguments hasTrailing isPure info span hself =>
    intro h
    obtain ⟨hown, hparts⟩ := Demand.met_expr_iff.mp (Demand.metParts_singleton.mp h)
    refine Demand.metParts_singleton.mpr (.expr (hcall hself hown) (Demand.metParts_cons.mpr ?_))
    exact ⟨met_of_isSelfInit hd hself, (Demand.metParts_cons.mp hparts).2⟩
  | _ => exact id

theorem reflects_returningSelf (hd : d.IsSparse) {name : String}
    (hown : (returningSelf name).Shows d)
    (hcall : ∀ {place callee arguments hasTrailing isPure info span}, isSelfInit callee = true →
      d.expr place false (.call (.typeName name { span }) arguments hasTrailing isPure info) →
      d.expr place false (.call callee arguments hasTrailing isPure info)) :
    (returningSelf name).Reflects d d d := by
  refine .of_stmt hown (fun {place s} => ?_) (metParts_of_returnSelf hd hcall)
  fun_cases returnSelf name s with
  | case1 | case3 => exact fun _ => hd.other rfl
  | _ => exact id

theorem metParts_of_toFactory (hblock : ∀ list, d.block list)
    (hreturning : ∀ name, (returningSelf name).Reflects d d d) {owner : Option String} {s : Stmt} :
    d.MetParts place (toFactory owner s).parts → d.MetParts place s.parts := by
  fun_cases toFactory owner s with
  | case1 head parameters body span owner hkind hassigns =>
    rw [Stmt.parts, Stmt.parts, Demand.metParts_append, Demand.metParts_append]
    refine And.imp_right fun h => Demand.metParts_singleton.mpr ((hreturning owner).met hblock ?_)
    rw [Transform.onFragment_congr (fun _ _ _ => rfl) {} _ _ none]
    exact Demand.metParts_singleton.mp h
  | _ => exact id

theorem reflects_optionalInitsToFactories {walked d' : Demand} (hblock : ∀ list, d'.block list)
    (hreturning : ∀ name, (returningSelf name).Reflects d' d' d')
    (hexpr : ∀ {place called e}, d'.expr place called e → walked.expr place called e)
    (hown_expr : ∀ {place called e},
      walked.expr place called (e.mapParts (optionalInitsToFactories.change place.owner)) →
        d.expr place called e)
    (hown : ∀ {place s},
      walked.stmt place (s.mapParts (optionalInitsToFactories.change place.owner)) → d.stmt place s)
    (hfactory : ∀ {place s}, d'.stmt place (toFactory place.owner s) → walked.stmt place s) :
    optionalInitsToFactories.Reflects walked d d' where
  own_expr := hown_expr
  own_stmt := hown
  expr h := (Demand.met_expr_iff.mp h).imp_left hexpr
  skip henters := absurd henters Bool.true_eq_false.mp
  descends _ := rfl
  stmt h := (h _ (List.mem_singleton_self _)).imp hfactory (metParts_of_toFactory hblock hreturning)
  block h := h

/-! ## All passes -/

theorem reflects_early (hd : d.IsSparse) (registry : Registry)
    (hown : ∀ pass ∈ PassId.transforming.take 3, (pass.transform registry).Shows d) :
    ∀ pass ∈ PassId.transforming.take 3, (pass.transform registry).Reflects d d d := by
  change ∀ pass ∈ [PassId.removeParentheses, .defersToFinally, .removeExtensions], _ at hown ⊢
  simp only [List.forall_mem_cons] at hown ⊢
  obtain ⟨hparentheses, hdefers, hextensions, -⟩ := hown
  refine ⟨⟨hparentheses.expr, hparentheses.stmt, met_of_unwrapExpr hd,
      fun henters => absurd henters Bool.true_eq_false.mp, fun _ => rfl, fun {place s} h => ?_,
      fun h => h⟩,
    ⟨hdefers.expr, hdefers.stmt, Demand.met_expr_iff.mp,
      fun henters => absurd henters Bool.true_eq_false.mp, fun _ => rfl,
      fun h => h _ (List.mem_singleton_self _), metStmt_of_wrapDefers hd⟩,
    ⟨hextensions.expr, hextensions.stmt, Demand.met_expr_iff.mp,
      fun henters => absurd henters Bool.true_eq_false.mp, fun _ => rfl,
      metStmt_of_spreadExtension hd, fun h => h⟩, List.forall_mem_nil _⟩
  refine (h _ (List.mem_singleton_self _)).imp (fun hmade => ?_) (metParts_of_unwrapStmt hd)
  cases s <;> first | exact hmade | exact hd.other rfl

theorem reflects_staticMembersToCompanion (hd : d.IsSparse)
    (hown : staticMembersToCompanion.Shows d) : staticMembersToCompanion.Reflects d d d :=
  .of_stmt hown hd.hoist (metParts_of_hoistStmt hd)

theorem reflects_doubleNegativesInGuards (hd : d.IsSparse)
    (hown : doubleNegativesInGuards.Shows d) : doubleNegativesInGuards.Reflects d d d := by
  refine .of_stmt hown (fun {place s} => ?_) (metParts_of_cancelNegation hd)
  fun_cases cancelNegation s with
  | case1 => exact fun _ => hd.other rfl
  | case2 => exact id

theorem reflects_returnIfNil (hd : d.IsSparse) (hown : returnIfNil.Shows d) :
    returnIfNil.Reflects d d d := by
  refine .of_stmt hown (fun {place s} => ?_) (metParts_of_returnForNil hd)
  fun_cases returnForNil s with
  | case1 => exact fun _ => hd.other rfl
  | case2 | case3 => exact id

theorem reflects_isChecksForPayloadCases (hd : d.IsSparse)
    (hown : isChecksForPayloadCases.Shows d) : isChecksForPayloadCases.Reflects d d d := by
  refine .of_stmt hown (fun {place s} => ?_) (metParts_of_checkCases hd)
  cases s <;> first | exact id | exact fun _ => hd.other rfl

theorem reflects_removeBreaksInSwitches (hd : d.IsSparse) (hown : removeBreaksInSwitches.Shows d) :
    removeBreaksInSwitches.Reflects d d d := by
  refine .of_stmt hown (fun {place s} => ?_) (metParts_of_dropBreaks hd)
  cases s <;> first | exact id | exact fun _ => hd.other rfl

theorem reflects_switchesToExpressions (hd : d.IsOfDeclarations)
    (hown : switchesToExpressions.Shows d) : switchesToExpressions.Reflects d d d where
  own_expr := hown.expr
  own_stmt := hown.stmt
  expr := Demand.met_expr_iff.mp
  skip henters := absurd henters Bool.true_eq_false.mp
  descends _ := rfl
  stmt {place s} h := by
    refine (h _ (List.mem_singleton_self _)).imp (fun hmade => ?_) (metParts_of_toValue hd)
    revert hmade
    fun_cases toValue s with
    | case1 => exact fun _ => hd.other rfl
    | case2 | case3 | case4 => exact id
  block := metStmt_of_joinDeclarations hd

theorem reflects_late (hd : d.IsOfDeclarations) (registry : Registry)
    (hown : ∀ pass ∈ PassId.transforming.drop 4, (pass.transform registry).Shows d) :
    ∀ pass ∈ PassId.transforming.drop 4, (pass.transform registry).Reflects d d d := by
  have hexpr : ∀ {f}, Transform.Shows { expr := f } d → Transform.Reflects { expr := f } d d d :=
    fun hown => .of_expr hown fun _ => Demand.met_expr_iff.mp hd.met_expr
  rw [PassId.forall_mem_late_iff] at hown ⊢
  obtain ⟨hstatics, hanonymous, hguards, hnil, hcases, hchecks, hswitches, hbreaks, hlabels, hpure,
    himpure, hmutable, hlibrary⟩ := hown
  exact ⟨reflects_staticMembersToCompanion hd.isSparse hstatics, hexpr hanonymous,
    reflects_doubleNegativesInGuards hd.isSparse hguards, reflects_returnIfNil hd.isSparse hnil,
    hexpr hcases, reflects_isChecksForPayloadCases hd.isSparse hchecks,
    reflects_switchesToExpressions hd hswitches, reflects_removeBreaksInSwitches
    hd.isSparse hbreaks,
    hexpr hlabels, hexpr hpure, hexpr himpure, hexpr hmutable, hexpr hlibrary⟩

theorem reflects_transform (hd : d.IsOfDeclarations) (registry : Registry)
    (hown : ∀ pass ∈ PassId.transforming, (pass.transform registry).Shows d)
    (hreturning : ∀ name, (returningSelf name).Shows d)
    (hfactory : ∀ {place s}, d.stmt place (toFactory place.owner s) → d.stmt place s) :
    ∀ pass ∈ PassId.transforming, (pass.transform registry).Reflects d d d := by
  change ∀ pass ∈ PassId.transforming.take 3 ++ (.optionalInitsToFactories ::
    PassId.transforming.drop 4), _ at hown ⊢
  rw [List.forall_mem_append, List.forall_mem_cons] at hown ⊢
  obtain ⟨hearly, hinits, hlate⟩ := hown
  refine ⟨reflects_early hd.isSparse registry hearly, ?_, reflects_late hd registry hlate⟩
  exact reflects_optionalInitsToFactories hd.level.block
    (fun name => reflects_returningSelf hd.isSparse (hreturning name) fun _ _ => hd.expr ..)
    (fun h => h) hinits.expr hinits.stmt hfactory

end Pass

theorem Pipeline.metFile_of_changed {d : Demand} (hblock : ∀ list, d.block list)
    {registry : Registry} {passes : List PassId} {file : SourceFile}
    (hpasses : ∀ pass ∈ passes, (pass.transform registry).Reflects d d d)
    (h : d.MetFile (changed registry passes file)) : d.MetFile file := by
  by_contra hfile
  exact changed_induction (P := fun file => ¬d.MetFile file)
    (fun pass hpass _ => mt ((hpasses pass hpass).metFile hblock hblock)) hfile h

/-! ## Enumerations -/

namespace Pass

/-- Nothing outside expressions tells a fact of an enumeration. -/
def untold (fact : Fact) : Demand :=
  absent fun place s => place.inExpr = false ∧ fact ∈ enumSurvey.before s

theorem isOfDeclarations_untold (fact : Fact) : (untold fact).IsOfDeclarations where
  expr _ _ _ := trivial
  stmt hplace h := Bool.false_ne_true (h.1.symm.trans hplace)
  level := ⟨Iff.rfl, fun _ => trivial⟩
  other {place s} hs h := by
    cases s with
    | enumDecl => exact Bool.false_ne_true hs.symm
    | _ => exact List.not_mem_nil h.2
  receiver {place extended s} h := by cases s <;> exact h
  hoist {place s} h := by cases s <;> exact h

theorem shows_untold (fact : Fact) (t : Transform) : t.Shows (untold fact) where
  expr _ := trivial
  stmt h hs := by
    refine h ⟨hs.1, ?_⟩
    rw [before_enumSurvey_mapParts]
    exact hs.2

theorem inExpr_step_of_mem_parts {s : Stmt} {step : Step} {list : List Stmt}
    (h : (step, Fragment.stmts list) ∈ s.parts) (place : Place) :
    (place.step step).inExpr = place.inExpr := by
  have hitem : ∀ item : Variable, (step, Fragment.stmts list) ∈ item.parts → step = .body := by
    grind [Variable.parts, Part.value, Part.body]
  have hcondition : ∀ c : Condition, (step, Fragment.stmts list) ∈ c.parts → step = .body := by
    rintro (e | item) <;> grind [Condition.parts, Part.value]
  have htarget : ∀ t : SwitchTarget, (step, Fragment.stmts list) ∈ t.parts → step = .body := by
    rintro (_ | e | item) <;> grind [SwitchTarget.parts, Part.value]
  have hstep : step = .body ∨ ∃ owner, step = .members owner := by
    cases s <;> simp [Stmt.parts, SwitchCase.parts, Part.value, Part.body] at h <;> grind
  obtain rfl | ⟨owner, rfl⟩ := hstep <;> rfl

theorem not_mem_ofFragment_of_untold {fact : Fact} {place : Place} {fragment : Fragment}
    (h : (untold fact).Met place fragment) (hplace : place.inExpr = false) :
    fact ∉ enumSurvey.ofFragment fragment := by
  induction h with
  | expr => simp
  | stmts own _ _ ih =>
    intro hfact
    obtain ⟨s, hs, hfact | hfact | hfact⟩ := Survey.mem_ofStmts_iff.mp hfact
    · exact own s hs ⟨hplace, hfact⟩
    · obtain ⟨⟨step, fragment⟩, hpart, hfact⟩ := Survey.mem_ofPartList.mp hfact
      cases fragment with
      | expr called e => simp at hfact
      | stmts list => exact ih s hs _ hpart ((inExpr_step_of_mem_parts hpart _).trans hplace) hfact
    · exact List.not_mem_nil hfact

theorem not_mem_enumSurvey_of_untold {fact : Fact} {file : SourceFile}
    (h : (untold fact).MetFile file) : fact ∉ enumSurvey.ofFile file := by
  intro hfact
  obtain ⟨s, hs, hfact⟩ | hfact := Survey.mem_ofFile_iff.mp hfact
  · exact not_mem_ofFragment_of_untold (h.1 s hs) rfl hfact
  · exact not_mem_ofFragment_of_untold h.2 rfl hfact

theorem reflects_classifyEnums (fact : Fact) :
    classifyEnums.Reflects (untold fact) (untold fact) (untold fact) := by
  refine .of_stmt (shows_untold fact _) (fun {place s} h => ?_) (fun {place s} h => ?_) <;>
    cases s <;> exact h

theorem not_untold_finished (registry : Registry) {file : SourceFile} {fact : Fact}
    (h : fact ∈ enumSurvey.ofFile (cleanInheritances.onFile file)) :
    ¬(untold fact).MetFile (Pipeline.finished registry file) := by
  have hd := isOfDeclarations_untold fact
  intro hfinished
  rw [Pipeline.finished_eq_changed] at hfinished
  have hcollected := Pipeline.metFile_of_changed hd.level.block
    (reflects_transform hd registry (fun _ _ => shows_untold fact _) (fun _ => shows_untold fact _)
      fun {place s} h => by cases s <;> first | exact h | exact fun hs => List.not_mem_nil hs.2)
    hfinished
  exact not_mem_enumSurvey_of_untold
    ((reflects_classifyEnums fact).metFile hd.level.block hd.level.block hcollected) h

theorem exists_of_not_untold {fact : Fact} {file : SourceFile} (h : ¬(untold fact).MetFile file) :
    ∃ e ∈ Enumeration.survey.ofFile file, e.fact = fact := by
  by_contra hnone
  push Not at hnone
  refine h (((Survey.metFile_demand_iff (fun _ => rfl) rfl).mpr hnone).mono (fun _ => trivial) ?_
    fun _ => trivial)
  intro place s own hs
  cases s with
  | enumDecl head kind elements members span =>
    exact own.1 ⟨head, kind, elements⟩ (List.mem_singleton_self _) (List.mem_singleton.mp hs.2).symm
  | _ => exact List.not_mem_nil hs.2

/-- What is known of an enumeration is declared in some file after all passes. -/
theorem exists_mem_finished {files : List SourceFile} {facts : List Fact}
    (hfacts : LearnedFrom files facts) {name : String} {known : EnumFacts} :
    let registry := Registry.empty.recordAll facts
    registry.enumFacts? name = some known →
      ∃ file ∈ files, ∃ e ∈ Enumeration.survey.ofFile (Pipeline.finished registry file),
        e.name = name := by
  intro registry hknown
  obtain ⟨file, hfile, hfact⟩ := exists_of_enumFacts? hfacts hknown
  obtain ⟨e, he, heq⟩ := exists_of_not_untold (not_untold_finished registry hfact)
  exact ⟨file, hfile, e, he, (Fact.enumeration.inj heq).1⟩

end Pass

end Ferry
