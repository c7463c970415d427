/-
  Ferry.Proofs.Pass.SubjectCheck

  Copies of a subject in the tests of its `switch`.  A pass rewrites the subject and the copies one
  by one, but it makes the same of them, since none looks at where in the `switch` an expression
  stands: all that happens to only one of them is that parentheses around it are dropped.  So a
  check of the subject is still one after any pass (`SwitchTests.Follows.checksSubject`).

  `SwitchTests.Follows` says that tests are what became of others.  It is shown of what a pass makes
  of a `switch` it meets (`follows_stmt`), and of every `switch` in the file it leaves
  (`carries_following`).
-/
import Ferry.Proofs.Pass.SwitchOutline
import Ferry.Proofs.Target.Branch

namespace Ferry

/-! ## Tests -/

/-- What a `switch` tests: its subject, and the patterns of every case that has some. -/
structure SwitchTests where
  subject : Expr
  patterns : List (List Expr)
  span : Option Span

def Stmt.tests? : Stmt → Option SwitchTests
  | .switchStmt subject cases _ span =>
    some ⟨subject, (cases.map SwitchCase.patterns).filter (!·.isEmpty), span⟩
  | _ => none

/-- The tests of the switches of a file, also of those in closures. -/
def switchTests : Survey SwitchTests where
  after s := s.tests?.toList

/-- What is asked of the tests of every `switch`. -/
def Demand.ofTests (P : SwitchTests → Prop) : Demand where
  stmt _ s := ∀ tests ∈ s.tests?, P tests

def Expr.isPayloadCase : Expr → Bool
  | .member _ _ _ style _ => style == some .hasPayload
  | _ => false

theorem Expr.isPayloadCase_mapParts (φ : Change) (e : Expr) :
    (e.mapParts φ).isPayloadCase = e.isPayloadCase := by
  cases e <;> rfl

/-- That an expression checks whether the subject is of a type.  Parentheses do not count. -/
def ChecksSubject (subject e type : Expr) : Prop :=
  ∃ lhs info, e.unparenthesized = .binary lhs "is" type info ∧
    lhs.unparenthesized = subject.unparenthesized

namespace ChecksSubject

variable {subject e type : Expr}

theorem of_subject (h : ChecksSubject subject e type) {subject' : Expr}
    (hsubject : subject'.unparenthesized = subject.unparenthesized) :
    ChecksSubject subject' e type := by
  obtain ⟨lhs, info, hbinary, hlhs⟩ := h
  exact ⟨lhs, info, hbinary, hlhs.trans hsubject.symm⟩

theorem not_isPayloadCase (h : ChecksSubject subject e type) : ¬ e.isPayloadCase = true := by
  obtain ⟨lhs, info, hbinary, -⟩ := h
  intro hpayload
  cases e with
  | member => cases hbinary
  | _ => cases hpayload

end ChecksSubject

namespace SwitchTests

def map (f : Expr → Expr) (tests : SwitchTests) : SwitchTests :=
  ⟨f tests.subject, tests.patterns.map (List.map f), tests.span⟩

/-- That a pattern is kept, or names a case that carries values and has become a check for it. -/
def KeptOrChecked (subject e e' : Expr) : Prop :=
  e' = e ∨ e.isPayloadCase = true ∧ ChecksSubject subject e' e

/-- That tests are what became of others when `f` was applied to all expressions.  Parentheses
around the subject may be gone, and names of cases may have become checks. -/
structure Follows (f : Expr → Expr) (before after : SwitchTests) : Prop where
  span : after.span = before.span
  subject : after.subject.unparenthesized = (f before.subject).unparenthesized
  patterns : List.Forall₂ (List.Forall₂ fun e e' => KeptOrChecked after.subject (f e) e')
    before.patterns after.patterns

/-- That tests are others but for parentheses around the subject and for checks. -/
structure Refines (before after : SwitchTests) : Prop where
  span : after.span = before.span
  subject : after.subject.unparenthesized = before.subject.unparenthesized
  patterns : ∃ check : Expr → Expr, (∀ e, KeptOrChecked after.subject e (check e)) ∧
    after.patterns = before.patterns.map (List.map check)

variable {f : Expr → Expr} {before middle after : SwitchTests}

theorem Refines.refl (tests : SwitchTests) : Refines tests tests :=
  ⟨rfl, rfl, id, fun _ => .inl rfl, by simp⟩

theorem follows_map (f : Expr → Expr) (tests : SwitchTests) : Follows f tests (tests.map f) where
  span := rfl
  subject := rfl
  patterns := List.forall₂_map_right_iff.mpr (List.forall₂_same.mpr fun _ _ =>
    List.forall₂_map_right_iff.mpr (List.forall₂_same.mpr fun _ _ => .inl rfl))

theorem Follows.refines (h : Follows f before middle) (h' : Refines middle after) :
    Follows f before after where
  span := h'.span.trans h.span
  subject := h'.subject.trans h.subject
  patterns := by
    obtain ⟨check, hcheck, heq⟩ := h'.patterns
    rw [heq]
    refine List.forall₂_map_right_iff.mpr (h.patterns.imp fun _ _ hcase => ?_)
    refine List.forall₂_map_right_iff.mpr (hcase.imp fun e e' he => ?_)
    obtain rfl | ⟨hpayload, hchecks⟩ := he
    · exact hcheck (f e)
    · -- What is a check already is no name of a case.
      have hkept : check e' = e' := (hcheck e').resolve_right fun h => hchecks.not_isPayloadCase h.1
      rw [hkept]
      exact .inr ⟨hpayload, hchecks.of_subject h'.subject⟩

end SwitchTests

/-! ## Expressions -/

/-- That a change of expressions leaves subtype checks and parentheses what they are. -/
structure KeepsChecks (f : Expr → Expr) : Prop where
  paren : ∀ inner info, (f (.paren inner info)).unparenthesized = (f inner).unparenthesized
  check : ∀ lhs type info, f (.binary lhs "is" type info) = .binary (f lhs) "is" (f type) info

namespace KeepsChecks

variable {f g : Expr → Expr}

theorem unparenthesized (hf : KeepsChecks f) (e : Expr) :
    (f e).unparenthesized = (f e.unparenthesized).unparenthesized := by
  fun_induction Expr.unparenthesized e with
  | case1 inner info ih => exact (hf.paren inner info).trans ih
  | case2 => rfl

theorem unparenthesized_congr (hf : KeepsChecks f) {e e' : Expr}
    (h : e.unparenthesized = e'.unparenthesized) :
    (f e).unparenthesized = (f e').unparenthesized := by
  rw [hf.unparenthesized e, h, ← hf.unparenthesized e']

theorem comp (hg : KeepsChecks g) (hf : KeepsChecks f) : KeepsChecks fun e => g (f e) where
  paren inner info := hg.unparenthesized_congr (hf.paren inner info)
  check lhs type info := by rw [hf.check, hg.check]

end KeepsChecks

theorem ChecksSubject.map {f : Expr → Expr} {subject e type : Expr}
    (h : ChecksSubject subject e type)
    (hf : KeepsChecks f) : ChecksSubject (f subject) (f e) (f type) := by
  obtain ⟨lhs, info, hbinary, hlhs⟩ := h
  refine ⟨f lhs, info, ?_, hf.unparenthesized_congr hlhs⟩
  rw [hf.unparenthesized, hbinary, hf.check]
  rfl

namespace SwitchTests

variable {f g : Expr → Expr} {before after : SwitchTests}

theorem Follows.map (h : Follows f before after) (hg : KeepsChecks g)
    (hpayload : ∀ e, e.isPayloadCase = true → (g e).isPayloadCase = true) :
    Follows (fun e => g (f e)) before (after.map g) where
  span := h.span
  subject := hg.unparenthesized_congr h.subject
  patterns := by
    refine List.forall₂_map_right_iff.mpr (h.patterns.imp fun _ _ hcase => ?_)
    refine List.forall₂_map_right_iff.mpr (hcase.imp fun e e' he => ?_)
    exact he.imp (congrArg g) fun ⟨hname, hchecks⟩ => ⟨hpayload (f e) hname, hchecks.map hg⟩

theorem Follows.checksSubject (h : before.Follows f after) (hf : KeepsChecks f) {e e' type : Expr}
    (he : KeptOrChecked after.subject (f e) e') (hcheck : ChecksSubject before.subject e type) :
    ChecksSubject after.subject e' (f type) := by
  have hmade := (hcheck.map hf).of_subject h.subject
  obtain rfl | ⟨hpayload, -⟩ := he
  · exact hmade
  · exact absurd hpayload hmade.not_isPayloadCase

end SwitchTests

/-- A check of the subject is taken for one, and where the subject stands behind `when` it is
written as a question for the type. -/
theorem ChecksSubject.isSubjectCheck {subject e type : Expr} (h : ChecksSubject subject e type) :
    Switch.isSubjectCheck subject e = true ∧
      ∀ registry, Target.exprDocument registry (.branch subject) e =
        .cat [.text "is ", Target.exprDocument registry .value type] := by
  obtain ⟨lhs, info, hbinary, hlhs⟩ := h
  have hcheck : Switch.isSubjectCheck subject e = true := by
    rw [Switch.isSubjectCheck, hbinary]
    simp [Switch.mentions, hlhs]
  refine ⟨hcheck, fun registry => ?_⟩
  obtain ⟨_, checked, _, hshape, -, hbranch⟩ := Target.branchOf_of_isSubjectCheck hcheck
  rw [hbinary] at hshape
  cases hshape
  rw [Target.exprDocument_branch, hbranch]
  rfl

/-! ## Statements -/

theorem tests?_mapParts (φ : Change) (s : Stmt) :
    (s.mapParts φ).tests? = s.tests?.map (SwitchTests.map φ.value) := by
  cases s with
  | switchStmt subject cases target span =>
    simp [Stmt.mapParts, Stmt.tests?, SwitchTests.map, SwitchCase.mapParts, List.filter_map,
      Function.comp_def]
  | _ => rfl

/-- That a statement tests what another one tests, or both test nothing. -/
def SameTests (s s' : Stmt) : Prop := Option.Rel SwitchTests.Refines s.tests? s'.tests?

theorem SameTests.of_eq {s s' : Stmt} (h : s'.tests? = s.tests?) : SameTests s s' := by
  rw [SameTests, h]
  cases s.tests? with
  | none => exact .none
  | some tests => exact .some (.refl tests)

/-- Demands on tests that outlive refinement do not tell such statements apart. -/
theorem SameTests.ofTests {P : SwitchTests → Prop}
    (hP : ∀ {tests tests'}, SwitchTests.Refines tests tests' → P tests → P tests') {place : Place}
    {s s' : Stmt} (h : SameTests s s') (own : (Demand.ofTests P).stmt place s) :
    (Demand.ofTests P).stmt place s' := by
  intro tests' htests'
  rw [SameTests, show s'.tests? = some tests' from htests'] at h
  cases htests : s.tests? with
  | none => rw [htests] at h; cases h
  | some tests =>
    rw [htests] at h
    cases h with
    | some hrefines => exact hP hrefines (own tests htests)

namespace Pass

theorem sameTests_unwrapStmt (s : Stmt) : SameTests s (unwrapStmt s) := by
  cases s with
  | switchStmt subject cases target span =>
    refine .some ⟨rfl, subject.unparenthesized_unparenthesized, id, fun _ => .inl rfl, ?_⟩
    simp
  | _ => exact .of_eq rfl

theorem keptOrChecked_checkCase (subject e : Expr) :
    SwitchTests.KeptOrChecked subject e (checkCase subject e) := by
  fun_cases checkCase subject e with
  | case1 => exact .inr ⟨rfl, subject, _, rfl, rfl⟩
  | case2 => exact .inl rfl

theorem sameTests_checkCases (s : Stmt) : SameTests s (checkCases s) := by
  cases s with
  | switchStmt subject cases target span =>
    refine .some ⟨rfl, rfl, checkCase subject, keptOrChecked_checkCase subject, ?_⟩
    simp [List.filter_map, Function.comp_def]
  | _ => exact .of_eq rfl

theorem sameTests_toValue (s : Stmt) : SameTests s (toValue s) := by
  fun_cases toValue s with
  | case1 subject first rest span target =>
    refine .of_eq ?_
    simp only [Stmt.tests?, List.map_map]
    rfl
  | case2 | case3 | case4 => exact .of_eq rfl

theorem sameTests_dropBreaks (s : Stmt) : SameTests s (dropBreaks s) := by
  cases s with
  | switchStmt subject cases target span =>
    -- Only cases without patterns are dropped.
    have hkept : ∀ patterns body span,
        ((!patterns.isEmpty) && !isIdle ⟨patterns, body, span⟩) = !patterns.isEmpty := by
      intro patterns body span
      cases patterns <;> rfl
    refine .of_eq ?_
    simp only [dropBreaks, Stmt.tests?, List.filter_map, List.filter_filter,
      Function.comp_def, hkept, List.map_map]
  | _ => exact .of_eq rfl

/-! ## Nodes -/

/-- That what a transform makes of nodes with their parts walked meets a demand that they met. -/
structure Keeps (t : Transform) (d : Demand) : Prop where
  expr : ∀ {place called e}, d.MetParts place e.parts → d.Met place (.expr called (t.expr called e))
  stmt : ∀ {place s}, d.MetStmt place s → ∀ made ∈ t.stmt place.owner s, d.MetStmt place made
  block : ∀ {place list}, (∀ s ∈ list, d.MetStmt place s) → ∀ s ∈ t.block list, d.MetStmt place s

/-- Walking changes all expressions of a `switch` alike. -/
theorem Keeps.carries {t : Transform} {P Q : SwitchTests → Prop} (h : Keeps t (.ofTests Q))
    (hdescends : ∀ s, t.descends s = true)
    (hskip : ∀ {place called e}, t.enters e = false → (Demand.ofTests P).Met place
      (.expr called e) → (Demand.ofTests Q).Met place (.expr called e))
    (hwalk : ∀ owner tests, P tests → Q (tests.map (t.onExpr owner false))) :
    t.Carries (.ofTests P) (.ofTests Q) := by
  refine .of_stmt (Demand.ofTests Q).stmt hdescends (fun _ _ parts => h.expr parts) hskip ?_
    (fun hlist => Demand.met_stmts_iff.mpr ⟨h.block hlist, trivial⟩) (fun _ _ => trivial)
  intro place s own parts
  refine h.stmt ⟨?_, parts⟩
  intro tests htests
  rw [tests?_mapParts] at htests
  obtain ⟨origin, horigin, rfl⟩ := Option.map_eq_some_iff.mp htests
  exact hwalk place.owner origin (own origin horigin)

section

variable {P : SwitchTests → Prop}

theorem isMild_ofTests : (Demand.ofTests P).IsMild := isMild_of_stmt

theorem isLevel_ofTests : (Demand.ofTests P).IsLevel := ⟨Iff.rfl, fun _ => trivial⟩

theorem ofTests_of_tests? {place : Place} {s : Stmt} (h : s.tests? = none) :
    (Demand.ofTests P).stmt place s := by
  intro tests htests
  rw [h] at htests
  exact absurd htests (Option.not_mem_none _)

theorem keeps_of_expr {enters : Expr → Bool} {g : Bool → Expr → Expr}
    (hg : ∀ {place called e}, (Demand.ofTests P).Met place (.expr called e) →
      (Demand.ofTests P).Met place (.expr called (g called e))) :
    Keeps { enters, expr := g } (.ofTests P) where
  expr parts := hg (.expr trivial parts)
  stmt h _ hmade := List.mem_singleton.mp hmade ▸ h
  block h := h

theorem keeps_of_stmt {enters : Expr → Bool} {f : Option String → Stmt → Stmt}
    (hown : ∀ {place owner s}, (Demand.ofTests P).stmt place s →
      (Demand.ofTests P).stmt place (f owner s))
    (hparts : ∀ {place owner s}, (Demand.ofTests P).MetParts place s.parts →
      (Demand.ofTests P).MetParts place (f owner s).parts) :
    Keeps { enters, stmt := fun owner s => [f owner s] } (.ofTests P) where
  expr parts := .expr trivial parts
  stmt h made hmade := by
    obtain rfl := List.mem_singleton.mp hmade
    exact ⟨hown h.1, hparts h.2⟩
  block h := h

theorem met_ofTests_place {place other : Place} {fragment : Fragment}
    (h : (Demand.ofTests P).Met place fragment) : (Demand.ofTests P).Met other fragment :=
  h.transport (r := fun _ _ => True) (fun _ _ => trivial) (fun _ _ => trivial) (fun _ own => own)
    (fun _ => trivial) trivial

theorem carries_anonymousRenaming_ofTests {isOnly : Bool}
    (hP : ∀ owner tests, P tests → P (tests.map ((anonymousRenaming isOnly).onExpr owner false))) :
    (anonymousRenaming isOnly).Carries (.ofTests P) (.ofTests P) := by
  refine Keeps.carries (keeps_of_expr fun {place called e} h => ?_) (fun _ => rfl) (fun _ h => h) hP
  exact .expr trivial (parts_renameAnonymous isOnly e ▸ (Demand.met_expr_iff.mp h).2)

theorem carries_returningSelf_ofTests (name : String) :
    (returningSelf name).Carries (.ofTests P) (.ofTests P) := by
  refine Keeps.carries (keeps_of_stmt ?_ (metParts_returnSelf isMild_ofTests)) (fun _ => rfl)
    (fun _ h => h) ?_
  · intro place _ s own
    fun_cases returnSelf name s with
    | case1 | case3 => exact ofTests_of_tests? rfl
    | _ => exact own
  · intro owner tests h
    -- Expressions are not entered.
    have hid : (returningSelf name).onExpr owner false = id :=
      funext fun e => by rw [Transform.onExpr_eq_mapParts]; rfl
    have hsame : tests.map id = tests := by simp [SwitchTests.map]
    rw [hid, hsame]
    exact h

theorem keeps_anonymousParameters
    (hP : ∀ isOnly owner tests, P tests →
      P (tests.map ((anonymousRenaming isOnly).onExpr owner false))) :
    Keeps anonymousParameters (.ofTests P) := by
  refine keeps_of_expr fun {place called e} h => ?_
  obtain heq | ⟨body, info, parameters, isOnly, rfl, heq⟩ := nameParameters_cases e
  · rw [heq]
    exact h
  · rw [heq]
    have hbody := Demand.metParts_singleton.mp (Demand.met_expr_iff.mp h).2
    refine .expr trivial (Demand.metParts_singleton.mpr ?_)
    have hmet : (Demand.ofTests P).Met {} (.stmts body) := met_ofTests_place hbody
    exact met_ofTests_place ((carries_anonymousRenaming_ofTests (hP isOnly)).met hmet)

/-- What passes make of nodes meets any demand on tests that outlives refinement and renaming. -/
theorem keeps_transform
    (hrefines : ∀ {tests tests'}, SwitchTests.Refines tests tests' → P tests → P tests')
    (hrenamed : ∀ isOnly owner tests, P tests →
      P (tests.map ((anonymousRenaming isOnly).onExpr owner false))) (registry : Registry) :
    ∀ pass ∈ PassId.transforming, Keeps (pass.transform registry) (.ofTests P) := by
  have hsame : ∀ {place s s'}, SameTests s s' → (Demand.ofTests P).stmt place s →
    (Demand.ofTests P).stmt place s' := fun h own => h.ofTests hrefines own
  have hmild : (Demand.ofTests P).IsMild := isMild_ofTests
  simp only [PassId.transforming, List.forall_mem_cons]
  -- One entry for each pass; those that touch no switch are closed at once.
  refine ⟨⟨?_, ?_, id⟩, ⟨.expr trivial, ?_, ?_⟩, ⟨.expr trivial, ?_, id⟩, keeps_of_stmt ?_ ?_,
    keeps_of_stmt ?_ (metParts_hoistStmt isLevel_ofTests (ofTests_of_tests? rfl)),
    keeps_anonymousParameters hrenamed, keeps_of_stmt ?_ (metParts_cancelNegation hmild.tame),
    keeps_of_stmt ?_ (metParts_returnForNil hmild.tame), keeps_of_expr ?_,
    keeps_of_stmt (hsame (sameTests_checkCases _)) (metParts_checkCases hmild.tame),
    ⟨.expr trivial, ?_, ?_⟩,
    keeps_of_stmt (hsame (sameTests_dropBreaks _)) (metParts_dropBreaks fun _ => trivial),
    keeps_of_expr (met_nameArguments hmild registry), keeps_of_expr (met_markPure hmild registry),
    keeps_of_expr id, keeps_of_expr id, keeps_of_expr (met_replaceReference_of hmild id),
    fun _ h => absurd h List.not_mem_nil⟩
  · exact fun parts => .expr trivial (metParts_unwrapExpr hmild.steady parts)
  · intro place s h made hmade
    obtain rfl := List.mem_singleton.mp hmade
    exact ⟨hsame (sameTests_unwrapStmt s) h.1, metParts_unwrapStmt hmild.steady h.2⟩
  · exact fun h made hmade => List.mem_singleton.mp hmade ▸ h
  · intro place list h
    exact metStmt_wrapDefers isLevel_ofTests (ofTests_of_tests? rfl) (fun s hs _ => (h s hs).1)
      fun s hs => (h s hs).2
  · intro place s h
    refine metStmt_spreadExtension isLevel_ofTests (fun {place extended s} own => ?_)
      (fun _ => h.1) h.2
    cases s <;> exact own
  · intro place owner s own
    fun_cases toFactory owner s <;> exact own
  -- The body of a factory is walked once more, for what it returns.
  · refine metParts_toFactory fun {owner body} hbody => ?_
    have hmade := (carries_returningSelf_ofTests owner).met hbody
    rw [Transform.onFragment_congr (fun _ _ _ => rfl) {} _ _ none] at hmade
    exact hmade
  · intro place _ s own
    cases s <;> exact own
  · intro place _ s own
    fun_cases cancelNegation s <;> exact own
  · intro place _ s own
    fun_cases returnForNil s <;> exact own
  · intro place called e h
    obtain heq | ⟨base, n, isLibrary, style, style', info, rfl, heq⟩ := styleCase_cases registry e
    · rw [heq]
      exact h
    · rw [heq]
      exact .expr trivial (Demand.met_expr_iff.mp h).2
  · intro place s h made hmade
    obtain rfl := List.mem_singleton.mp hmade
    exact ⟨hsame (sameTests_toValue s) h.1,
      metParts_toValue (ofTests_of_tests? rfl) (fun _ => trivial) h.2⟩
  · exact fun h => metStmt_joinDeclarations (fun own => own) h

end

/-! ## Passes -/

/-- What a transform makes of the expressions of a `switch`: it walks them, and renames in them if
it gives names to the parameters of a closure around them. -/
inductive Rewriting (t : Transform) : (Expr → Expr) → Prop where
  | walked (owner : Option String) : Rewriting t (t.onExpr owner false)
  | renamed {f : Expr → Expr} (isOnly : Bool) (owner : Option String) (h : Rewriting t f) :
      Rewriting t fun e => (anonymousRenaming isOnly).onExpr owner false (f e)

theorem keepsChecks_onExpr {t : Transform} (henters : ∀ e, isClosure e = false → t.enters e = true)
    (hparen : ∀ inner info, (t.expr false (.paren inner info)).unparenthesized =
      inner.unparenthesized)
    (hcheck : ∀ lhs type info, t.expr false (.binary lhs "is" type info) =
      .binary lhs "is" type info)
    (owner : Option String) : KeepsChecks (t.onExpr owner false) where
  paren inner info := by
    rw [Transform.onExpr_eq_mapParts, if_pos (henters _ rfl)]
    exact hparen _ info
  check lhs type info := by
    rw [Transform.onExpr_eq_mapParts, if_pos (henters _ rfl)]
    exact hcheck _ _ info

theorem unparenthesized_unwrapExpr_paren (inner : Expr) (info : Info) :
    (unwrapExpr (.paren inner info)).unparenthesized = inner.unparenthesized := by
  rw [unwrapExpr]
  split <;> rfl

theorem keepsChecks_transform (registry : Registry) (owner : Option String) :
    ∀ pass ∈ PassId.transforming, KeepsChecks ((pass.transform registry).onExpr owner false) := by
  simp only [PassId.transforming, List.forall_mem_cons]
  refine ⟨keepsChecks_onExpr (fun _ _ => rfl) unparenthesized_unwrapExpr_paren
    (fun _ _ _ => rfl) owner, ?_, ?_, ?_, ?_, ?_, ?_, ?_, ?_, ?_, ?_, ?_, ?_, ?_, ?_, ?_, ?_,
    fun _ h => absurd h List.not_mem_nil⟩
  -- No other pass looks at parentheses or at checks.
  all_goals exact keepsChecks_onExpr (fun _ _ => rfl) (fun _ _ => rfl) (fun _ _ _ => rfl) owner

theorem keepsChecks_anonymousRenaming (isOnly : Bool) (owner : Option String) :
    KeepsChecks ((anonymousRenaming isOnly).onExpr owner false) :=
  keepsChecks_onExpr (fun _ he => congrArg not he) (fun _ _ => rfl) (fun _ _ _ => rfl) owner

theorem Rewriting.keepsChecks {registry : Registry} {pass : PassId}
    (hpass : pass ∈ PassId.transforming) {f : Expr → Expr}
    (h : Rewriting (pass.transform registry) f) : KeepsChecks f := by
  induction h with
  | walked owner => exact keepsChecks_transform registry owner pass hpass
  | renamed isOnly owner _ ih => exact (keepsChecks_anonymousRenaming isOnly owner).comp ih

theorem isPayloadCase_anonymousRenaming (isOnly : Bool) (owner : Option String) {e : Expr}
    (h : e.isPayloadCase = true) :
    ((anonymousRenaming isOnly).onExpr owner false e).isPayloadCase = true := by
  rw [Transform.onExpr_eq_mapParts]
  split
  next =>
    rw [← e.isPayloadCase_mapParts ((anonymousRenaming isOnly).change owner)] at h
    generalize e.mapParts _ = walked at h ⊢
    show (renameAnonymous isOnly walked).isPayloadCase = true
    fun_cases renameAnonymous isOnly walked with
    | case1 | case2 => cases h
    | case3 => exact h
  next => exact h

theorem enters_transform (pass : PassId) (registry : Registry) (e : Expr) :
    (pass.transform registry).enters e = true := by
  cases pass <;> rfl

theorem descends_transform (pass : PassId) (registry : Registry) (s : Stmt) :
    (pass.transform registry).descends s = true := by
  cases pass <;> rfl

/-- That tests became of some of those in a list. -/
def Following (t : Transform) (list : List SwitchTests) (after : SwitchTests) : Prop :=
  ∃ before ∈ list, ∃ f, Rewriting t f ∧ before.Follows f after

theorem carries_following (registry : Registry) (list : List SwitchTests) :
    ∀ pass ∈ PassId.transforming, (pass.transform registry).Carries
      (.ofTests (· ∈ list)) (.ofTests (Following (pass.transform registry) list)) := by
  intro pass hpass
  refine Keeps.carries (keeps_transform ?_ ?_ registry pass hpass)
    (descends_transform pass registry) ?_ ?_
  · rintro tests tests' hrefines ⟨before, hbefore, f, hf, hfollows⟩
    exact ⟨before, hbefore, f, hf, hfollows.refines hrefines⟩
  · rintro isOnly owner tests ⟨before, hbefore, f, hf, hfollows⟩
    exact ⟨before, hbefore, _, hf.renamed isOnly owner,
      hfollows.map (keepsChecks_anonymousRenaming isOnly owner)
        fun _ => isPayloadCase_anonymousRenaming isOnly owner⟩
  · intro place called e hskip _
    exact absurd (enters_transform pass registry e) (by rw [hskip]; exact Bool.false_ne_true)
  · exact fun owner tests htests => ⟨tests, htests, _, .walked owner, tests.follows_map _⟩

theorem sameTests_stmt (registry : Registry) (owner : Option String) {s : Stmt}
    (hs : s.tests?.isSome = true) :
    ∀ pass ∈ PassId.transforming, ∃ made, (pass.transform registry).stmt owner s = [made] ∧
      SameTests s made := by
  cases s with
  | switchStmt subject cases target span =>
    simp only [PassId.transforming, List.forall_mem_cons]
    refine ⟨⟨_, rfl, sameTests_unwrapStmt _⟩, ⟨_, rfl, .of_eq rfl⟩, ⟨_, rfl, .of_eq rfl⟩,
      ⟨_, rfl, .of_eq rfl⟩, ⟨_, rfl, .of_eq rfl⟩, ⟨_, rfl, .of_eq rfl⟩, ⟨_, rfl, .of_eq rfl⟩,
      ⟨_, rfl, .of_eq rfl⟩, ⟨_, rfl, .of_eq rfl⟩, ⟨_, rfl, sameTests_checkCases _⟩,
      ⟨_, rfl, sameTests_toValue _⟩, ⟨_, rfl, sameTests_dropBreaks _⟩, ⟨_, rfl, .of_eq rfl⟩,
      ⟨_, rfl, .of_eq rfl⟩, ⟨_, rfl, .of_eq rfl⟩, ⟨_, rfl, .of_eq rfl⟩, ⟨_, rfl, .of_eq rfl⟩,
      fun _ h => absurd h List.not_mem_nil⟩
  | _ => cases hs

theorem follows_stmt {pass : PassId} (hpass : pass ∈ PassId.transforming) (registry : Registry)
    (owner : Option String) {s : Stmt} {before : SwitchTests} (hs : s.tests? = some before) :
    let t := pass.transform registry
    ∃ made after, t.stmt owner (t.onStmt owner s) = [made] ∧ made.tests? = some after ∧
      before.Follows (t.onExpr owner false) after := by
  intro t
  have hwalked : (t.onStmt owner s).tests? = some (before.map (t.onExpr owner false)) := by
    rw [Transform.onStmt_eq, if_pos (descends_transform pass registry s), tests?_mapParts, hs]
    rfl
  obtain ⟨made, hmade, hsame⟩ :=
    sameTests_stmt registry owner (s := t.onStmt owner s) (by rw [hwalked]; rfl) pass hpass
  rw [SameTests, hwalked] at hsame
  cases htests : made.tests? with
  | none => rw [htests] at hsame; cases hsame
  | some after =>
    rw [htests] at hsame
    cases hsame with
    | some hrefines => exact ⟨made, after, hmade, htests, (before.follows_map _).refines hrefines⟩

end Pass

/-! ## Checks -/

/-- That where a test was a check of the subject the test there now is taken for one, and is written
as such where the subject stands behind `when`. -/
def SwitchTests.ChecksKept (f : Expr → Expr) (before after : SwitchTests) : Prop :=
  List.Forall₂ (List.Forall₂ fun e e' => ∀ type, ChecksSubject before.subject e type →
    ChecksSubject after.subject e' (f type) ∧ Switch.isSubjectCheck after.subject e' = true ∧
      ∀ registry, Target.exprDocument registry (.branch after.subject) e' =
        .cat [.text "is ", Target.exprDocument registry .value (f type)])
    before.patterns after.patterns

theorem SwitchTests.Follows.checksKept {f : Expr → Expr} {before after : SwitchTests}
    (h : before.Follows f after) (hf : KeepsChecks f) : before.ChecksKept f after := by
  refine h.patterns.imp fun _ _ hcase => hcase.imp fun e e' he type hcheck => ?_
  have hchecks := h.checksSubject hf he hcheck
  exact ⟨hchecks, hchecks.isSubjectCheck⟩

/-- A pass makes one `switch` of every `switch`, with all that was a check of the subject one still,
and there is no `switch` in the file it leaves but those it made so.  `f` is what it made of all
expressions of the `switch`. -/
theorem checksKept_transform {pass : PassId} (hpass : pass ∈ PassId.transforming)
    (registry : Registry) (file : SourceFile) :
    let t := pass.transform registry
    (∀ owner s before, s.tests? = some before → ∃ made after,
      t.stmt owner (t.onStmt owner s) = [made] ∧ made.tests? = some after ∧
        before.Follows (t.onExpr owner false) after ∧
        before.ChecksKept (t.onExpr owner false) after) ∧
      ∀ after ∈ switchTests.ofFile (t.onFile file), ∃ before ∈ switchTests.ofFile file,
        ∃ f, Pass.Rewriting t f ∧ before.Follows f after ∧ before.ChecksKept f after := by
  intro t
  constructor
  · intro owner s before hs
    obtain ⟨made, after, hmade, hafter, hfollows⟩ := Pass.follows_stmt hpass registry owner hs
    have hkeeps := Pass.keepsChecks_transform registry owner pass hpass
    exact ⟨made, after, hmade, hafter, hfollows, hfollows.checksKept hkeeps⟩
  -- Ask of the tests that they stand in the file: that holds of the file, and a pass carries it on.
  · have hstart : (Demand.ofTests (· ∈ switchTests.ofFile file)).MetFile file :=
      Survey.metFile_pick_iff.mpr fun _ htests => htests
    have hend := (Pass.carries_following registry _ pass hpass).metFile hstart
    intro after hafter
    obtain ⟨before, hbefore, f, hf, hfollows⟩ := Survey.metFile_pick_iff.mp hend after hafter
    exact ⟨before, hbefore, f, hf, hfollows, hfollows.checksKept (hf.keepsChecks hpass)⟩

/-- The first of some shapes, which the target takes from them with a call. -/
def firstShape : Expr := .member (.name "shapes" false false {}) "first" true none {}

def firstShapeSwitch : Stmt :=
  .switchStmt firstShape
    [⟨[.binary (.paren firstShape {}) "is" (.typeName "Circle" {}) {}], [.breakStmt none], none⟩,
      ⟨[], [], none⟩] none none

def firstShapeFile : SourceFile where
  path := "first"
  statements := [firstShapeSwitch]

theorem checksKept_firstShape :
    let t := PassId.standardLibrary.transform {}
    let check : Expr := .binary (.paren firstShape {}) "is" (.typeName "Circle" {}) {}
    let before : SwitchTests := ⟨firstShape, [[check]], none⟩
    let call : Expr :=
      .call (.member (.name "shapes" false false {}) "firstOrNull" false none {}) (.tuple [] {})
        false false {}
    PassId.standardLibrary ∈ PassId.transforming ∧ firstShapeSwitch.tests? = some before ∧
      ChecksSubject before.subject check (.typeName "Circle" {}) ∧
      (∃ made after, t.stmt none (t.onStmt none firstShapeSwitch) = [made] ∧
        made.tests? = some after ∧ before.Follows (t.onExpr none false) after ∧
          before.ChecksKept (t.onExpr none false) after) ∧
      (switchTests.ofFile (t.onFile firstShapeFile)).map SwitchTests.subject = [call] ∧
      ∀ after ∈ switchTests.ofFile (t.onFile firstShapeFile),
        ∃ before ∈ switchTests.ofFile firstShapeFile,
          ∃ f, Pass.Rewriting t f ∧ before.Follows f after ∧ before.ChecksKept f after := by
  have hkept := @checksKept_transform .standardLibrary (by decide) {} firstShapeFile
  exact ⟨by decide, rfl, ⟨.paren firstShape {}, {}, rfl, rfl⟩, hkept.1 none firstShapeSwitch _ rfl,
    rfl, hkept.2⟩

end Ferry
