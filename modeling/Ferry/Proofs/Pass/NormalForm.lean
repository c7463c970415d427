/-
  Ferry.Proofs.Pass.NormalForm

  What is left of the source language after all passes.  The target has no deferred blocks, no
  extensions, no static members outside a companion, no library of the source and no parameters
  without a name, and each of these is taken out by one pass.  A demand says of every node that it
  is none of them: the pass that takes it out meets the demand and no later pass undoes it, so at
  the end all demands are met at once (`ofFile_leftovers_transform`).

  Where a static member stands and whose body a name belongs to is said by the place, for the passes
  move and rewrite what is below a type or a closure.  The pass itself is about the type or the
  closure; `met_unstatic` and `met_unanonymous` go from the one to the other.
-/
import Ferry.Proofs.Pass.Carried
import Ferry.Target.Emit

namespace Ferry

namespace Pass

/-! ## What is looked for -/

/-- Dictionaries with keys or values left over. -/
def lopsided : Survey Expr where
  expr e := if e.isBalanced then [] else [e]

/-- Names of anonymous parameters used directly in a body, not in closures inside it. -/
def anonymousNames : Survey String where
  enters e := !isClosure e
  expr
    | .name n _ _ _ => if (anonymousIndex? n).isSome then [n] else []
    | _ => []

/-- What the target has no wording for. -/
inductive Leftover where
  | deferred
  | extension
  /-- A static member outside the companion. -/
  | staticMember
  | library (name : String)
  /-- An anonymous parameter of a closure without parameters. -/
  | anonymous (name : String)
deriving DecidableEq

def leftovers : Survey Leftover where
  expr
    | .name n true _ _ | .member _ n true _ _ => [.library n]
    | .closure [] body _ => (anonymousNames.ofStmts body).map .anonymous
    | _ => []
  before
    | .deferBlock .. => [.deferred]
    | .extensionDecl .. => [.extension]
    | s => ((typeMembers s).filter Stmt.isStatic).map fun _ => .staticMember

/-- Puts other statements in the place of deferred blocks. -/
def replacingDefers (f : List Stmt → Option Span → List Stmt) : Transform where
  stmt _
    | .deferBlock body span => f body span
    | s => [s]

/-! ## Dictionaries, deferred blocks and extensions -/

/-- No dictionary has keys or values left over. -/
def balanced : Demand where
  expr _ _ e := e.isBalanced = true

theorem isFree_balanced : balanced.IsFree where
  mild.steady := ⟨Iff.rfl⟩
  mild.expr {_ _ e} hwatched := by
    cases e with
    | dictionary => exact absurd hwatched Bool.true_eq_false.mp
    | _ => rfl
  shallow.expr {_ _ e} φ h := by
    cases e with
    -- As many keys as before, and as many values.
    | dictionary keys values info =>
      show ((keys.map φ.value).length == (values.map φ.value).length) = true
      rw [List.length_map, List.length_map]
      exact h
    | _ => rfl
  shallow.stmt _ _ := trivial
  stmt _ := trivial
  block _ := trivial
  counterpart _ := rfl
  name := rfl
  function := trivial
  declare := trivial
  anywhere_expr h := h
  anywhere_stmt _ := trivial

theorem metFile_balanced {file : SourceFile} (h : lopsided.ofFile file = []) :
    balanced.MetFile file := by
  have hdemand : (lopsided.demand fun _ => False).MetFile file :=
    (Survey.metFile_demand_iff (fun _ => rfl) rfl).mpr (List.eq_nil_iff_forall_not_mem.mp h)
  refine hdemand.mono ?_ (fun _ => trivial) fun _ => trivial
  intro place called e hnone
  show e.isBalanced = true
  by_contra hunbalanced
  have hfound : e ∈ lopsided.expr e := by
    show e ∈ if e.isBalanced = true then [] else [e]
    rw [if_neg hunbalanced]
    exact List.mem_singleton_self e
  exact hnone e hfound

theorem isFree_undeferred : undeferred.IsFree := by
  refine isFree_of_stmt ?_ ?_ (fun _ _ _ _ _ _ => Stmt.noConfusion) (fun _ _ _ => Stmt.noConfusion)
  · intro φ s h body span
    cases s with
    | deferBlock body span => exact absurd rfl (h body span)
    | _ => exact Stmt.noConfusion
  · rintro s hwatched body span rfl
    exact Bool.true_eq_false.mp hwatched

theorem isFree_unextended : unextended.IsFree := by
  refine isFree_of_stmt ?_ ?_ (fun _ _ _ _ _ _ _ _ => Stmt.noConfusion)
    (fun _ _ _ _ _ => Stmt.noConfusion)
  · intro φ s h extended inherits members span
    cases s with
    | extensionDecl extended inherits members span =>
      exact absurd rfl (h extended inherits members span)
    | _ => exact Stmt.noConfusion
  · rintro s hwatched extended inherits members span rfl
    exact Bool.true_eq_false.mp hwatched

/-! ## Static members -/

/-- Nothing directly among the members of a type is static. -/
def unstatic : Demand where
  stmt place s := place.isMember = true → s.isStatic = false

theorem isNameless_unstatic : unstatic.IsNameless where
  mild := isMild_of_stmt
  shallow.expr _ _ := trivial
  shallow.stmt {_ s} φ h hmember := by
    have hstatic : (s.mapParts φ).isStatic = s.isStatic := by cases s <;> rfl
    rw [hstatic]
    exact h hmember
  stmt {_ s} hwatched _ := by
    cases s with
    | function | declare => exact absurd hwatched Bool.true_eq_false.mp
    | _ => rfl
  block _ := trivial
  counterpart _ := trivial
  name := trivial
  bare_expr _ _ := trivial
  bare_stmt _ h := h

def isInner (part : Part) : Bool :=
  match part.1 with
  | .value | .body => true
  | _ => false

@[simp] theorem isInner_value (e : Expr) : isInner (.value e) = true := rfl

@[simp] theorem isInner_body (list : List Stmt) : isInner (.body list) = true := rfl

theorem step_of_isInner {part : Part} (h : isInner part = true) (place : Place) :
    (place.step part.1).isMember = false ∧ (place.step part.1).inBare = place.inBare := by
  obtain ⟨step, fragment⟩ := part
  cases step with
  | value | body => exact ⟨rfl, rfl⟩
  | _ => exact absurd h Bool.false_ne_true

@[simp] theorem all_isInner_variable (item : Variable) : item.parts.all isInner = true := by
  simp [Variable.parts, Function.comp_def]

@[simp] theorem all_isInner_condition (condition : Condition) :
    condition.parts.all isInner = true := by
  cases condition <;> simp [Condition.parts]

@[simp] theorem all_isInner_case (c : SwitchCase) : c.parts.all isInner = true := by
  simp [SwitchCase.parts, Function.comp_def]

@[simp] theorem all_isInner_target (target : SwitchTarget) : target.parts.all isInner = true := by
  cases target <;> simp [SwitchTarget.parts]

/-- Besides values and bodies, only types have parts: the values of cases, and their members. -/
theorem isInner_of_mem_parts {s : Stmt} {part : Part} (h : part ∈ s.parts) :
    isInner part = true ∨ (∃ owner, part.1 = .rawValue owner) ∨
      ∃ owner, part = (.members owner, .stmts (typeMembers s)) := by
  cases s with
  | classDecl head | structDecl head => exact .inr (.inr ⟨head.name, List.mem_singleton.mp h⟩)
  | enumDecl head kind elements members span =>
    obtain h | h := List.mem_append.mp h
    · obtain ⟨element, -, h⟩ := List.mem_flatMap.mp h
      obtain ⟨e, -, rfl⟩ := List.mem_map.mp h
      exact .inr (.inl ⟨head.name, rfl⟩)
    · exact .inr (.inr ⟨head.name, List.mem_singleton.mp h⟩)
  | _ =>
    refine .inl (List.all_eq_true.mp ?_ part h)
    simp [Stmt.parts, List.all_flatMap, Function.comp_def]

/-- A member belongs to the same body as its type, and it is a member. -/
theorem step_of_mem_parts {s : Stmt} {part : Part} (h : part ∈ s.parts) (place : Place) :
    (place.step part.1).inBare = place.inBare ∧
      ((place.step part.1).isMember = true → part.2 = .stmts (typeMembers s)) := by
  obtain hinner | ⟨owner, hstep⟩ | ⟨owner, rfl⟩ := isInner_of_mem_parts h
  · obtain ⟨hmember, hbare⟩ := step_of_isInner hinner place
    exact ⟨hbare, fun h => absurd (hmember.symm.trans h) Bool.false_ne_true⟩
  · rw [hstep]
    exact ⟨rfl, fun h => absurd h Bool.false_ne_true⟩
  · exact ⟨rfl, fun _ => rfl⟩

theorem met_unstatic {place : Place} {fragment : Fragment} (h : hoisted.Met place fragment)
    (hmembers : place.isMember = true → ∀ list, fragment = .stmts list →
      ∀ s ∈ list, s.isStatic = false) : unstatic.Met place fragment := by
  induction h with
  | expr own parts ih =>
    refine .expr trivial fun part hpart => ih part hpart fun hmember => ?_
    obtain hstep | ⟨parameters, body, info, -, rfl⟩ := Expr.step_of_mem_parts hpart
    · rw [hstep] at hmember
      exact absurd hmember Bool.false_ne_true
    · exact absurd hmember Bool.false_ne_true
  | stmts own block parts ih =>
    refine .stmts (fun s hs hmember => hmembers hmember _ rfl s hs) trivial
      fun s hs part hpart => ?_
    refine ih s hs part hpart fun hmember list heq member hmem => ?_
    have hlist := (step_of_mem_parts hpart _).2 hmember
    obtain rfl : typeMembers s = list := Fragment.stmts.inj (hlist.symm.trans heq)
    exact own s hs member hmem

theorem isStatic_of_mem_typeMembers {place : Place} {s member : Stmt}
    (h : unstatic.MetParts place s.parts) (hmember : member ∈ typeMembers s) :
    member.isStatic = false := by
  obtain ⟨owner, hpart⟩ : ∃ owner, (Step.members owner, Fragment.stmts (typeMembers s)) ∈
    s.parts := by
    cases s with
    | classDecl head | structDecl head => exact ⟨head.name, List.mem_singleton_self _⟩
    | enumDecl head => exact ⟨head.name, List.mem_append_right _ (List.mem_singleton_self _)⟩
    | _ => exact absurd hmember List.not_mem_nil
  exact ((Demand.met_stmts_iff.mp (h _ hpart)).1 member hmember).1 rfl

/-! ## Anonymous parameters -/

/-- Nothing in the own body of a closure without parameters is an anonymous parameter. -/
def unanonymous : Demand where
  expr place _
    | .name n _ _ _ => place.inBare = true → anonymousIndex? n = none
    | _ => True

theorem anonymousIndex?_counterpart {n : String} (h : anonymousIndex? n = none) :
    anonymousIndex? ((functionCounterpart? n).getD n) = none := by
  fun_cases functionCounterpart? n with
  | case7 => exact h
  | _ => decide

theorem isPlain_unanonymous : unanonymous.IsPlain where
  mild.steady.expr_iff {_ _ _ e} := by cases e <;> exact Iff.rfl
  mild.expr {_ _ e} hwatched := by
    cases e with
    | name => exact absurd hwatched Bool.true_eq_false.mp
    | _ => trivial
  shallow.expr {_ _ e} φ h := by
    cases e with
    | name => exact h
    | _ => trivial
  shallow.stmt _ _ := trivial
  stmt _ := trivial
  block _ := trivial
  counterpart h hbare := anonymousIndex?_counterpart (h hbare)

/-- What is reached as a value is not in a closure right below. -/
theorem enters_of_value {e : Expr} {part : Part} (h : part ∈ e.parts) (hstep : part.1 = .value) :
    anonymousSurvey.enters e = true := by
  cases e with
  | closure parameters body info =>
    obtain rfl := List.mem_singleton.mp h
    exact absurd hstep Step.noConfusion
  | _ => rfl

theorem ofStmts_of_nameParameters {body : List Stmt} {info : Info}
    (h : nameParameters (.closure [] body info) = .closure [] body info) :
    anonymousSurvey.ofStmts body = [] := by
  rw [nameParameters] at h
  split at h
  next hnone => exact List.max?_eq_none_iff.mp hnone
  next highest hhighest =>
    -- The body is what the renaming makes of it.
    obtain ⟨-, hbody, -⟩ := Expr.closure.inj h
    rw [← hbody]
    exact ofFragment_anonymousRenaming _ none {} (.stmts body)

theorem met_unanonymous {place : Place} {fragment : Fragment}
    (hbalanced : balanced.Met place fragment) (hnamed : named.Met place fragment)
    (hbare : place.inBare = true → anonymousSurvey.ofFragment fragment = []) :
    unanonymous.Met place fragment := by
  induction hbalanced with
  | @expr place called e hbalanced _ ih =>
    obtain ⟨hown, hparts⟩ := Demand.met_expr_iff.mp hnamed
    refine .expr ?_ fun part hpart => ih part hpart (hparts part hpart) fun hinner => ?_
    · cases e with
      | name n isLibrary isImplicit info =>
        intro hplace
        exact Option.toList_eq_nil_iff.mp (hbare hplace)
      | _ => trivial
    -- Either the part is in the same closure, or the node is a closure and the part its body.
    · obtain hstep | ⟨parameters, body, info, rfl, rfl⟩ := Expr.step_of_mem_parts hpart
      · rw [hstep] at hinner
        have henters : anonymousSurvey.enters e = true := enters_of_value hpart hstep
        exact ((Survey.ofExpr_eq_nil_iff (fun _ => hbalanced) henters).mp (hbare hinner)).1
          part hpart
      · obtain rfl : parameters = [] := List.isEmpty_iff.mp hinner
        exact ofStmts_of_nameParameters hown
  | stmts _ _ _ ih =>
    have hlist := (Demand.met_stmts_iff.mp hnamed).1
    refine .stmts (fun _ _ => trivial) trivial fun s hs part hpart => ?_
    refine ih s hs part hpart ((hlist s hs).2 part hpart) fun hinner => ?_
    rw [(step_of_mem_parts hpart _).1] at hinner
    exact (Survey.ofStmts_eq_nil_iff.mp (hbare hinner) s hs).2.1 part hpart

theorem ofFragment_anonymousNames {place : Place} {fragment : Fragment}
    (h : unanonymous.Met place fragment) (hbare : place.inBare = true) :
    anonymousNames.ofFragment fragment = [] := by
  induction h with
  | @expr place called e own _ ih =>
    cases e with
    | closure => rfl
    | name n isLibrary isImplicit info =>
      have hindex : anonymousIndex? n = none := own hbare
      show (if (anonymousIndex? n).isSome = true then [n] else []) = []
      rw [hindex]
      rfl
    | _ =>
      refine Survey.ofExpr_eq_nil (fun part hpart => ih part hpart ?_) rfl
      -- The node is no closure, so that its parts are in the body that it is in.
      obtain hstep | ⟨parameters, body, info, heq, -⟩ := Expr.step_of_mem_parts hpart
      · rw [hstep]
        exact hbare
      · exact absurd heq Expr.noConfusion
  | stmts _ _ _ ih =>
    refine Survey.ofStmts_eq_nil_iff.mpr fun s hs => ⟨rfl, fun part hpart => ?_, rfl⟩
    exact ih s hs part hpart ((step_of_mem_parts hpart _).1.trans hbare)

/-! ## After all passes -/

def clean : Demand where
  expr _ _ e := leftovers.expr e = []
  stmt _ s := leftovers.before s = []

theorem expr_leftovers {place : Place} {e : Expr} (htranslated : isLibraryReference e = false)
    (hanonymous : unanonymous.MetParts place e.parts) : leftovers.expr e = [] := by
  cases e with
  | name n isLibrary isImplicit info =>
    obtain rfl : isLibrary = false := htranslated
    rfl
  | member base n isLibrary style info =>
    obtain rfl : isLibrary = false := htranslated
    rfl
  | closure parameters body info =>
    cases parameters with
    | nil =>
      have hbody := ofFragment_anonymousNames (Demand.metParts_singleton.mp hanonymous) rfl
      exact congrArg (List.map Leftover.anonymous) hbody
    | cons => rfl
  | _ => rfl

theorem before_leftovers {place : Place} {s : Stmt} (hdeferred : undeferred.stmt place s)
    (hextended : unextended.stmt place s) (hstatic : unstatic.MetParts place s.parts) :
    leftovers.before s = [] := by
  cases s with
  | deferBlock body span => exact absurd rfl (hdeferred body span)
  | extensionDecl extended inherits members span =>
    exact absurd rfl (hextended extended inherits members span)
  | classDecl | structDecl | enumDecl =>
    refine List.map_eq_nil_iff.mpr (List.filter_eq_nil_iff.mpr fun member hmember => ?_)
    rw [isStatic_of_mem_typeMembers hstatic hmember]
    exact Bool.false_ne_true
  | _ => rfl

theorem met_clean {place : Place} {fragment : Fragment} (hdeferred : undeferred.Met place fragment)
    (hextended : unextended.Met place fragment) (hstatic : unstatic.Met place fragment)
    (htranslated : translated.Met place fragment) (hanonymous : unanonymous.Met place fragment) :
    clean.Met place fragment := by
  induction hdeferred with
  | expr _ _ ih =>
    have hextended := (Demand.met_expr_iff.mp hextended).2
    have hstatic := (Demand.met_expr_iff.mp hstatic).2
    obtain ⟨hlibrary, htranslated⟩ := Demand.met_expr_iff.mp htranslated
    have hanonymous := (Demand.met_expr_iff.mp hanonymous).2
    exact .expr (expr_leftovers hlibrary hanonymous) fun part hpart =>
      ih part hpart (hextended part hpart) (hstatic part hpart) (htranslated part hpart)
        (hanonymous part hpart)
  | stmts hdeferred _ _ ih =>
    have hextended := (Demand.met_stmts_iff.mp hextended).1
    have hstatic := (Demand.met_stmts_iff.mp hstatic).1
    have htranslated := (Demand.met_stmts_iff.mp htranslated).1
    have hanonymous := (Demand.met_stmts_iff.mp hanonymous).1
    refine .stmts (fun s hs => ?_) trivial fun s hs part hpart => ?_
    · exact before_leftovers (hdeferred s hs) (hextended s hs).1 (hstatic s hs).2
    · exact ih s hs part hpart ((hextended s hs).2 part hpart) ((hstatic s hs).2 part hpart)
        ((htranslated s hs).2 part hpart) ((hanonymous s hs).2 part hpart)

section

variable (registry : Registry) (file : SourceFile)

open Pipeline (changed metFile_changed metFile_of_take)

theorem metFile_undeferred : undeferred.MetFile (changed registry PassId.transforming file) := by
  refine metFile_of_take 2 (fun pass hpass => ?_)
    (carries_undeferred.metFile (Demand.metFile_trivial _))
  exact carries_of_isFree isFree_undeferred registry pass (List.mem_of_mem_drop hpass)

theorem metFile_unextended : unextended.MetFile (changed registry PassId.transforming file) := by
  refine metFile_of_take 3 (fun pass hpass => ?_)
    (carries_unextended.metFile (Demand.metFile_trivial _))
  exact carries_of_isFree isFree_unextended registry pass (List.mem_of_mem_drop hpass)

theorem metFile_unstatic : unstatic.MetFile (changed registry PassId.transforming file) := by
  refine metFile_of_take 5 (carries_of_isNameless isNameless_unstatic registry) ?_
  have hhoisted : hoisted.MetFile (changed registry (PassId.transforming.take 5) file) :=
    carries_hoisted.metFile (Demand.metFile_trivial _)
  -- A file is not a type, so none of its declarations is a member.
  have hfile : (({} : Place).isMember = true) → False := Bool.false_ne_true
  exact ⟨fun s hs => met_unstatic (hhoisted.1 s hs) fun h => (hfile h).elim,
    met_unstatic hhoisted.2 fun h => (hfile h).elim⟩

theorem metFile_translated : translated.MetFile (changed registry PassId.transforming file) :=
  carries_translated.metFile (Demand.metFile_trivial _)

variable {file}

theorem metFile_unanonymous (h : lopsided.ofFile file = []) :
    unanonymous.MetFile (changed registry PassId.transforming file) := by
  refine metFile_of_take 6 (carries_late isPlain_unanonymous registry) ?_
  have hbalanced : balanced.MetFile (changed registry (PassId.transforming.take 6) file) :=
    metFile_changed (fun pass hpass => carries_of_isFree isFree_balanced registry pass
      (List.mem_of_mem_take hpass)) (metFile_balanced h)
  have hnamed : named.MetFile (changed registry (PassId.transforming.take 6) file) :=
    carries_named.metFile (Demand.metFile_trivial _)
  have hfile : (({} : Place).inBare = true) → False := Bool.false_ne_true
  exact ⟨fun s hs => met_unanonymous (hbalanced.1 s hs) (hnamed.1 s hs) fun h => (hfile h).elim,
    met_unanonymous hbalanced.2 hnamed.2 fun h => (hfile h).elim⟩

theorem metFile_clean (h : lopsided.ofFile file = []) :
    clean.MetFile (changed registry PassId.transforming file) := by
  have hdeferred := metFile_undeferred registry file
  have hextended := metFile_unextended registry file
  have hstatic := metFile_unstatic registry file
  have htranslated := metFile_translated registry file
  have hanonymous := metFile_unanonymous registry h
  exact ⟨fun s hs => met_clean (hdeferred.1 s hs) (hextended.1 s hs) (hstatic.1 s hs)
      (htranslated.1 s hs) (hanonymous.1 s hs),
    met_clean hdeferred.2 hextended.2 hstatic.2 htranslated.2 hanonymous.2⟩

end

theorem settles_replacingDefers (f : List Stmt → Option Span → List Stmt) :
    (replacingDefers f).Settles undeferred where
  expr _ := rfl
  stmt {_ s} h := by
    cases s with
    | deferBlock body span => exact absurd rfl (h body span)
    | _ => rfl
  block _ _ := rfl

end Pass

open Pass in
/-- After all passes nothing is left over. A deferred block has no wording but a marker; whatever
were put in its place, the text is the same. -/
theorem ofFile_leftovers_transform {file : SourceFile} (hdictionaries : lopsided.ofFile file = [])
    (registry : Registry) :
    let final := Stage.lastFile file (Pipeline.transform [] registry file)
    leftovers.ofFile final = [] ∧
      ∀ (layout : Target.Layout) (f : List Stmt → Option Span → List Stmt),
        Target.emit registry layout ((replacingDefers f).onFile final) =
          Target.emit registry layout final := by
  intro final
  have hfinal : final = Pipeline.changed registry PassId.transforming file := by
    rw [← Pipeline.lastFile_transformFrom, ← Pipeline.transform_eq]
  rw [hfinal]
  constructor
  · exact Survey.ofFile_eq_nil (fun h => h) (fun h => ⟨h, rfl⟩)
      (metFile_clean registry hdictionaries)
  · intro layout f
    rw [Transform.onFile_of_settled (settles_replacingDefers f) (metFile_undeferred registry file)]

/-- The only wording of a deferred block. -/
example (registry : Registry) (body : List Stmt) (span : Option Span) :
    Target.piece registry none false (.deferBlock body span) =
      .plain .other [.ofMarker "defer outside of a do block"] :=
  rfl

/-- A file with something of everything that is taken out. -/
def ledgerFile : SourceFile where
  path := "ledger"
  declarations :=
    [.extensionDecl "Ledger" []
      [.function { name := "close" } []
        (some [.deferBlock [.returnStmt none none] none]) none] none,
     .structDecl { name := "Ledger" }
      [.declare { Variable.simple "limit" none (some (.literal (.int 1) {})) true with
        isStatic := true }] none]
  statements :=
    [.expression (.call (.name "print" true false {})
      (.closure [] [.expression (.dictionary [.name "$0" false false {}]
        [.member (.name "$1" false false {}) "count" true none {}] {}) none] {})
        true false {}) none]

/-- All of it is found before the passes and nothing of it after them. -/
theorem ofFile_leftovers_ledgerFile :
    Pass.lopsided.ofFile ledgerFile = [] ∧
      Pass.leftovers.ofFile ledgerFile =
        [.extension, .deferred, .staticMember, .library "print", .library "count",
          .anonymous "$0", .anonymous "$1"] ∧
      let final := Stage.lastFile ledgerFile (Pipeline.transform [] {} ledgerFile)
      Pass.leftovers.ofFile final = [] ∧
        ∀ (layout : Target.Layout) (f : List Stmt → Option Span → List Stmt),
          Target.emit {} layout ((Pass.replacingDefers f).onFile final) =
            Target.emit {} layout final :=
  ⟨rfl, by decide, ofFile_leftovers_transform rfl {}⟩

end Ferry
