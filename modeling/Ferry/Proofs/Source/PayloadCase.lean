/-
  Ferry.Proofs.Source.PayloadCase

  Tests for cases of an enumeration some of whose cases carry values.  A pattern that names such a
  case without looking at its values is read as the name of the case, and the name as a test of its
  own becomes a check of the subject.  With a `where` clause the name is compared with the subject
  before the clause is added (`pattern?_of_plainCase`), and then it is no test of its own: the
  comparison stays, as does every other one (`comparesPayload_checkCase`).
-/
import Ferry.Proofs.Pass.SubjectCheck
import Ferry.Proofs.Source.SwitchReading

namespace Ferry

open Source (plainBinary plainMember)

namespace Pass

/-! ## Comparisons -/

/-- Whether a test asks, alone or among others, if something equals a case that carries values. -/
def comparesPayload : Expr → Bool
  | .binary lhs op rhs _ =>
    if op = "&&" then comparesPayload lhs || comparesPayload rhs
    else op == "==" && rhs.isPayloadCase
  | .paren inner _ => comparesPayload inner
  | _ => false

variable (registry : Registry) (owner : Option String)

/-- What styling cases and then checking for them makes of an expression. -/
def withChecks (e : Expr) : Expr :=
  isChecksForPayloadCases.onExpr owner false ((capitalizeEnumCases registry).onExpr owner false e)

/-- Both passes change the expressions of a `switch` alike, and then names of cases become
checks. -/
theorem onStmts_withChecks (subject : Expr) (cases : List SwitchCase) (span : Option Span) :
    ∃ body : SwitchCase → List Stmt,
      isChecksForPayloadCases.onStmts owner
          ((capitalizeEnumCases registry).onStmts owner [.switchStmt subject cases none span]) =
        [.switchStmt (withChecks registry owner subject)
          (cases.map fun c =>
            { patterns := c.patterns.map fun e =>
                checkCase (withChecks registry owner subject) (withChecks registry owner e)
              body := body c
              span := c.span }) none span] := by
  -- Neither pass makes more or fewer statements, so each is what it makes of the one.
  have hstyled : ∀ s, (capitalizeEnumCases registry).onStmts owner [s] =
      [s.mapParts ((capitalizeEnumCases registry).change owner)] := fun s => by
    rw [Transform.onStmts_eq, List.flatMap_singleton, Transform.onStmt_eq]
    rfl
  have hchecked : ∀ s, isChecksForPayloadCases.onStmts owner [s] =
      [checkCases (s.mapParts (isChecksForPayloadCases.change owner))] := fun s => by
    rw [Transform.onStmts_eq, List.flatMap_singleton, Transform.onStmt_eq]
    rfl
  refine ⟨fun c => isChecksForPayloadCases.onStmts owner
    ((capitalizeEnumCases registry).onStmts owner c.body), ?_⟩
  rw [hstyled, hchecked]
  simp only [Stmt.mapParts, checkCases, SwitchCase.mapParts, List.map_map, Function.comp_def]
  rfl

theorem withChecks_plainBinary (lhs : Expr) (op : String) (rhs : Expr) :
    withChecks registry owner (plainBinary lhs op rhs) =
      plainBinary (withChecks registry owner lhs) op (withChecks registry owner rhs) := rfl

theorem withChecks_plainMember {enum n : String}
    (hcase : registry.isEnumCase (lastComponent enum) n = true)
    (hkind : registry.enumKind? (lastComponent enum) = some .hasPayload) :
    withChecks registry owner (plainMember (.typeName enum {}) n) =
      .member (.typeName enum {}) n false (some .hasPayload) {} := by
  have hstyled : styleCase registry (plainMember (.typeName enum {}) n) =
      .member (.typeName enum {}) n false (some .hasPayload) {} := by
    simp [styleCase, plainMember, typeReference?, Expr.unparenthesized, hcase, hkind]
  have hwalked : (capitalizeEnumCases registry).onExpr owner false
      (plainMember (.typeName enum {}) n) =
      styleCase registry (plainMember (.typeName enum {}) n) := rfl
  rw [withChecks, hwalked]
  exact congrArg (isChecksForPayloadCases.onExpr owner false) hstyled

theorem comparesPayload_onExpr (e : Expr) :
    comparesPayload (isChecksForPayloadCases.onExpr owner false e) = comparesPayload e := by
  have hwalked : ∀ e, isChecksForPayloadCases.onExpr owner false e =
      e.mapParts (isChecksForPayloadCases.change owner) := fun e => Transform.onExpr_eq_mapParts ..
  fun_induction comparesPayload e with
  | case1 lhs rhs info ihl ihr =>
    rw [hwalked, ← ihl, ← ihr]
    rfl
  | case2 lhs op rhs info hop =>
    rw [hwalked, Expr.mapParts, comparesPayload, if_neg hop]
    exact congrArg (op == "==" && ·) ((congrArg _ (hwalked rhs)).trans
      (rhs.isPayloadCase_mapParts _))
  | case3 inner info ih => exact ih
  | case4 e hbinary hparen =>
    rw [hwalked]
    cases e with
    | binary lhs op rhs info => exact absurd rfl (hbinary lhs op rhs info)
    | paren inner info => exact absurd rfl (hparen inner info)
    | _ => rfl

theorem comparesPayload_checkCase (subject e : Expr) :
    comparesPayload (checkCase subject (withChecks registry owner e)) =
      comparesPayload ((capitalizeEnumCases registry).onExpr owner false e) := by
  rw [← comparesPayload_onExpr owner ((capitalizeEnumCases registry).onExpr owner false e),
    ← withChecks]
  generalize withChecks registry owner e = made
  fun_cases checkCase subject made <;> rfl

end Pass

namespace Source

open Adapter Pass

/-! ## Readings -/

section

variable {tables : SideTables} {subject : Expr} {n : Node}

/-- A case without arguments is read as its name, if its enumeration is known. -/
theorem yields_plainCase {outcome : Except Diagnostic PatternMatch}
    (hkind : n.kind = .enumCasePattern) (harguments : n.childrenOf .patternArgument = [])
    (hnamed : namedEnum tables n subject.ty ≠ "")
    (h : Yields tables (n.site.pattern subject .switchCase true).run outcome) :
    outcome = .ok (.ofTest
      (plainMember (.typeName (namedEnum tables n subject.ty) {}) n.text)) := by
  rw [pattern_site] at h
  simp only [readPattern, hkind, destructureCase, ExceptT.run_bind] at h
  obtain ⟨found, hfound, h⟩ := yields_bind h
  obtain ⟨owner, howner, rfl⟩ :=
    yields_map (show Yields tables (Except.ok <$> caseOwner n subject) found from hfound)
  obtain rfl := yields_caseOwner howner
  rw [if_neg hnamed, ofKind_map_site, harguments] at h
  exact yields_pure h

/-- Its name stands for itself, but before a `where` clause it is compared with the subject. -/
theorem pattern?_of_plainCase {pattern : Node} {item : CaseItem}
    (hread : ReadsItem tables subject n item) (hpattern : n.child? "pattern" = some pattern)
    (hkind : pattern.kind = .enumCasePattern)
    (harguments : pattern.childrenOf .patternArgument = [])
    (hnamed : namedEnum tables pattern subject.ty ≠ "") :
    let named := plainMember (.typeName (namedEnum tables pattern subject.ty) {}) pattern.text
    ∃ clause, Option.Rel (fun n e => Yields tables n.site.expr e) (n.child? "where") clause ∧
      item.pattern? = some (clause.elim named fun clause =>
        plainBinary (plainBinary subject "==" named) "&&" (substitute [] clause)) := by
  cases hread with
  | blank hnone => cases hnone.symm.trans hpattern
  | refused hsome hread =>
    obtain rfl := Option.some.inj (hsome.symm.trans hpattern)
    cases yields_plainCase hkind harguments hnamed hread
  | @matched _ found clause hsome hread hclause =>
    obtain rfl := Option.some.inj (hsome.symm.trans hpattern)
    obtain rfl := Except.ok.inj (yields_plainCase hkind harguments hnamed hread)
    exact ⟨clause, hclause, by cases clause <;> rfl⟩

end

/-- After cases have been styled and checked for, a pattern that names a case of an enumeration some
    of whose cases carry values, and has no arguments, is tested by a check of the subject if its
    item has no `where`, and by a comparison with the subject and the clause if it has one.  Of all
    patterns, those are compared with such cases that were so before the checks were made. -/
theorem tests_of_plainCase {tables : SideTables} {n : Node} {subject : Expr}
    {cases : List SwitchCase} {target : Option SwitchTarget} {span : Option Span}
    (hread : Yields tables (readSwitch n n.site.children) (.switchStmt subject cases target span))
    (registry : Registry) (owner : Option String) :
    let styled := (capitalizeEnumCases registry).onExpr owner false
    let subject' := withChecks registry owner subject
    ∃ cases', isChecksForPayloadCases.onStmts owner ((capitalizeEnumCases registry).onStmts owner
        [.switchStmt subject cases target span]) = [.switchStmt subject' cases' none span] ∧
      List.Forall₂ (fun case c =>
        IsOpen tables subject case ∧ (∀ e ∈ c.patterns, e.isError = true) ∨
        List.Forall₂ (fun item e =>
            (∃ read origin, ReadsItem tables subject item read ∧ read.pattern? = some origin ∧
              comparesPayload e = comparesPayload (styled origin)) ∧
            ∀ pattern enum, item.child? "pattern" = some pattern → pattern.kind = .enumCasePattern →
              pattern.childrenOf .patternArgument = [] →
              enum = namedEnum tables pattern subject.ty → enum ≠ "" →
              registry.isEnumCase (lastComponent enum) pattern.text = true →
              registry.enumKind? (lastComponent enum) = some .hasPayload →
              let named := .member (.typeName enum {}) pattern.text false (some .hasPayload) {}
              (item.child? "where" = none →
                e = plainBinary subject' "is" named ∧ comparesPayload e = false) ∧
              ∀ clause, item.child? "where" = some clause →
                ∃ value, Yields tables clause.site.expr value ∧
                  e = plainBinary (plainBinary subject' "==" named) "&&"
                    (withChecks registry owner (substitute [] value)) ∧ comparesPayload e = true)
          (case.childrenOf .caseItem) c.patterns)
        (n.childrenOf .switchCase) cases' := by
  intro styled subject'
  obtain ⟨rfl, read, rfl, hcases⟩ := reads_of_readSwitch hread
  obtain ⟨body, hmade⟩ := onStmts_withChecks registry owner subject (read.map Prod.fst) span
  refine ⟨_, hmade, ?_⟩
  rw [List.map_map]
  refine List.forall₂_map_right_iff.mpr (hcases.imp fun case c hc => ?_)
  refine (patterns_of_readsCase hc).imp (And.imp_right fun herror => ?_) fun hitems => ?_
  -- An error stays an error.
  · refine List.forall_mem_map.mpr fun e he => ?_
    have herror := herror e he
    cases e with
    | error diagnostic span => rfl
    | _ => cases herror
  · refine List.forall₂_map_right_iff.mpr (hitems.imp fun item e he => ?_)
    obtain ⟨found, hfound, hsome⟩ := he
    refine ⟨⟨found, e, hfound, hsome, comparesPayload_checkCase registry owner subject' e⟩, ?_⟩
    rintro pattern enum hpattern hkind harguments rfl hnamed hcase hpayload named
    -- The case is tagged by the first pass, and the second one looks for it where it stands alone.
    have hname := withChecks_plainMember registry owner hcase hpayload
    obtain ⟨clause, hclause, hread⟩ :=
      pattern?_of_plainCase hfound hpattern hkind harguments hnamed
    obtain rfl := Option.some.inj (hread.symm.trans hsome)
    constructor
    · intro hwhere
      rw [hwhere] at hclause
      cases hclause
      simp only [Option.elim, hname]
      exact ⟨rfl, rfl⟩
    · intro node hwhere
      rw [hwhere] at hclause
      cases hclause with
      | some hvalue =>
        refine ⟨_, hvalue, ?_⟩
        simp only [Option.elim, withChecks_plainBinary, hname]
        exact ⟨rfl, rfl⟩

def shapePattern (text : String) (offset length : Nat) : Node :=
  .node { kind := .enumCasePattern, text := some text, role := some "pattern", offset, length }
    [.node { kind := .typeNode, text := some "Shape", role := some "type", offset, length } []]

/-- The statement `switch shape { case .circle where big: case .empty: }`. -/
def shapeSwitch : Node :=
  .node { kind := .switchStmt, length := 50 }
    [.node { kind := .declRef, text := some "shape", role := some "subject", offset := 7,
             length := 5 } [],
      .node { kind := .switchCase, offset := 15, length := 23 }
        [.node { kind := .caseItem, offset := 20, length := 17 }
          [shapePattern "circle" 20 7,
            .node { kind := .declRef, text := some "big", role := some "where", offset := 34,
                    length := 3 } []]],
      .node { kind := .switchCase, offset := 39, length := 12 }
        [.node { kind := .caseItem, offset := 44, length := 6 } [shapePattern "empty" 44 6]]]

def shapeName : Expr :=
  .name "shape" false false { span := some ⟨7, 12⟩ }

def shapeRegistry : Registry :=
  Registry.empty.record (.enumeration "Shape" .hasPayload ["circle", "empty"])

def shapeCases : List SwitchCase :=
  [{ patterns :=
      [plainBinary (plainBinary shapeName "==" (plainMember (.typeName "Shape" {}) "circle")) "&&"
        (.name "big" false false { span := some ⟨34, 37⟩ })]
     body := [], span := some ⟨15, 38⟩ },
    { patterns := [plainMember (.typeName "Shape" {}) "empty"], body := [], span := some ⟨39, 51⟩ }]

/-- The first case is compared with the subject, the second one is checked for. -/
theorem tests_shapeSwitch :
    let passed := isChecksForPayloadCases.onStmts none
      ((capitalizeEnumCases shapeRegistry).onStmts none
        [.switchStmt shapeName shapeCases none (some ⟨0, 50⟩)])
    Yields {} (readSwitch shapeSwitch shapeSwitch.site.children)
      (.switchStmt shapeName shapeCases none (some ⟨0, 50⟩)) ∧
    ∃ compared checked,
      passed = [.switchStmt shapeName
        [{ patterns := [compared], body := [], span := some ⟨15, 38⟩ },
          { patterns := [checked], body := [], span := some ⟨39, 51⟩ }] none (some ⟨0, 50⟩)] ∧
      comparesPayload compared = true ∧
      checked = plainBinary shapeName "is"
        (.member (.typeName "Shape" {}) "empty" false (some .hasPayload) {}) := by
  intro passed
  have hread : Yields {} (readSwitch shapeSwitch shapeSwitch.site.children)
      (.switchStmt shapeName shapeCases none (some ⟨0, 50⟩)) :=
    ⟨{}, {}, Exchange.reaches_alone _⟩
  obtain ⟨cases, hmade, hcases⟩ := tests_of_plainCase hread shapeRegistry none
  refine ⟨hread, _, _, rfl, ?_⟩
  obtain ⟨-, rfl, -, -⟩ := Stmt.switchStmt.inj (List.head_eq_of_cons_eq hmade)
  obtain - | ⟨hfirst, - | ⟨hsecond, -⟩⟩ := hcases
  constructor
  · rcases hfirst with ⟨-, herror⟩ | - | ⟨hitem, -⟩
    · exact absurd (herror _ List.mem_cons_self) Bool.false_ne_true
    · obtain ⟨_, -, -, hcompares⟩ :=
        (hitem.2 _ "Shape" rfl rfl rfl rfl (by decide) (by decide) (by decide)).2 _ rfl
      exact hcompares
  · rcases hsecond with ⟨-, herror⟩ | - | ⟨hitem, -⟩
    · exact absurd (herror _ List.mem_cons_self) Bool.false_ne_true
    · exact ((hitem.2 _ "Shape" rfl rfl rfl rfl (by decide) (by decide) (by decide)).1 rfl).1

end Source

end Ferry
