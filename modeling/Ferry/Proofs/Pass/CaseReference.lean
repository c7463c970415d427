/-
  Ferry.Proofs.Pass.CaseReference

  References to cases and the enumerations that declare them.  A reference gets its style from what
  is known of the type it names, and the enumeration of that name declares its cases by its own
  kind; where all enumerations have different names the two agree, whichever files they are in
  (`followsDeclaration_of_tagged`).  The one exception is the call of a case named `init`, which is
  written as a call of the type itself.
-/
import Ferry.Proofs.Pass.Outliving
import Ferry.Proofs.Target.CaseName

namespace Ferry

open Pass

/-- What passes make of an expression by itself. -/
def Pipeline.rewritten (registry : Registry) (passes : List PassId) (owner : Option String)
    (called : Bool) (e : Expr) : Expr :=
  passes.foldl (fun e pass => (pass.transform registry).onExpr owner called e) e

namespace Pass

/-! ## Tagging -/

theorem typeReference?_onExpr (registry : Registry) (owner : Option String)
    (called : Bool) (e : Expr) :
    typeReference? ((capitalizeEnumCases registry).onExpr owner called e) = typeReference? e := by
  have hexpr : ∀ called e, (capitalizeEnumCases registry).onExpr owner called e =
      styleCase registry (e.mapParts ((capitalizeEnumCases registry).change owner)) := by
    intro called e
    rw [Transform.onExpr_eq_mapParts]
    rfl
  unfold typeReference?
  fun_induction Expr.unparenthesized e generalizing called with
  | case1 inner info ih =>
    rw [hexpr]
    exact ih false
  | case2 e he =>
    rw [hexpr]
    cases e with
    | paren inner info => exact absurd rfl (he inner info)
    -- A member keeps its name whether it is tagged or not.
    | member base n isLibrary style info =>
      obtain h | ⟨base', n', isLibrary', style', made, info', -, h⟩ :=
        styleCase_cases registry (Expr.mapParts _ (.member base n isLibrary style info)) <;>
      · rw [h]
        rfl
    | _ => rfl

/-- A reference that is tagged names a known enumeration and one of its cases. -/
theorem known_of_tagged {registry : Registry} {base made : Expr} {n : String} {isLibrary : Bool}
    {kind : EnumKind} {info : Info} {owner : Option String} {called : Bool}
    (h : (capitalizeEnumCases registry).onExpr owner called (.member base n isLibrary none info) =
      .member made n isLibrary (some kind) info) :
    ∃ enum known, typeReference? base = some enum ∧ registry.enumFacts? enum = some known ∧
      known.kind = kind ∧ n ∈ known.cases := by
  have hstyled : styleCase registry
      (.member ((capitalizeEnumCases registry).onExpr owner false base) n isLibrary none info) =
        .member made n isLibrary (some kind) info := h
  rw [styleCase, typeReference?_onExpr] at hstyled
  split at hstyled
  next enum henum =>
    -- Only a case of a known enumeration gets a tag.
    split at hstyled
    next hcase =>
      obtain ⟨-, -, -, hkind, -⟩ := Expr.member.inj hstyled
      obtain ⟨known, hknown, hkind⟩ := Option.map_eq_some_iff.mp hkind
      refine ⟨enum, known, henum, hknown, hkind, ?_⟩
      rw [Registry.isEnumCase, hknown] at hcase
      exact List.contains_iff_mem.mp hcase
    next => exact absurd (Expr.member.inj hstyled).2.2.2.1 (Option.some_ne_none kind).symm
  next => exact absurd (Expr.member.inj hstyled).2.2.2.1 (Option.some_ne_none kind).symm

def afterTagging : List PassId := PassId.transforming.drop 9

theorem onExpr_tagged (registry : Registry) : ∀ pass ∈ afterTagging,
    ∀ owner called base n kind info, ∃ made,
      (pass.transform registry).onExpr owner called (.member base n false (some kind) info) =
        .member made n false (some kind) info := by
  show ∀ pass ∈ [PassId.isChecksForPayloadCases, .switchesToExpressions, .removeBreaksInSwitches,
    .callLabelsToParameterNames, .pureCalls, .impureSwitchSubjects, .mutableValueTypes,
    .standardLibrary], _
  simp only [List.forall_mem_cons]
  refine ⟨?_, ?_, ?_, ?_, ?_, ?_, ?_, ?_, fun _ h => absurd h List.not_mem_nil⟩ <;>
  · intro owner called base n kind info
    exact ⟨_, rfl⟩

theorem rewritten_tagged (registry : Registry) (owner : Option String) (called : Bool) (base : Expr)
    (n : String) (kind : EnumKind) (info : Info) :
    ∃ made, Pipeline.rewritten registry afterTagging owner called
      (.member base n false (some kind) info) = .member made n false (some kind) info := by
  have hrun : ∀ passes : List PassId, (∀ pass ∈ passes, pass ∈ afterTagging) → ∀ base, ∃ made,
      Pipeline.rewritten registry passes owner called (.member base n false (some kind) info) =
        .member made n false (some kind) info := by
    intro passes hpasses
    induction passes with
    | nil => exact fun base => ⟨base, rfl⟩
    | cons pass rest ih =>
      intro base
      obtain ⟨hpass, hrest⟩ := List.forall_mem_cons.mp hpasses
      obtain ⟨made, hmade⟩ := onExpr_tagged registry pass hpass owner called base n kind info
      obtain ⟨final, hfinal⟩ := ih hrest made
      refine ⟨final, ?_⟩
      rw [Pipeline.rewritten, List.foldl_cons, hmade]
      exact hfinal
  exact hrun afterTagging (fun _ h => h) base

/-! ## Declarations -/

namespace Enumeration

def stmt (e : Enumeration) (members : List Stmt) (span : Option Span) : Stmt :=
  .enumDecl e.head e.kind e.elements members span

/-- That a case is declared, wherever the enumeration stands and whatever members it has, and that
its name is what the kind makes of it. -/
def Declares (registry : Registry) (e : Enumeration) (n : String) (kind : EnumKind) : Prop :=
  n ∈ e.cases ∧ ∀ receiver isValue members span,
    Target.DeclaresCases e.name (e.cases.map (Target.caseName · kind))
      (Target.piece registry receiver isValue (e.stmt members span))

theorem Agrees.declares {registry : Registry} {e : Enumeration} {known : EnumFacts}
    (h : e.Agrees registry) (hknown : registry.enumFacts? e.name = some known) {n : String}
    (hn : n ∈ known.cases) : e.Declares registry n known.kind := by
  obtain ⟨hkind, hcases⟩ := h known hknown
  refine ⟨hcases ▸ hn, fun receiver isValue members span => ?_⟩
  rw [stmt, hkind, cases, List.map_map]
  exact Target.declaresCases_piece registry receiver isValue e.head known.kind
    e.elements members span

end Enumeration

end Pass

/-! ## Declarations and references -/

open Target in
/-- That a reference to a case of an enumeration is written by the name under which the enumeration
declares the case in the files of a program. -/
structure FollowsDeclaration (files : List SourceFile) (registry : Registry) (enum n : String)
    (kind : EnumKind) (reference : Expr) : Prop where
  declared : ∃ file ∈ files, ∃ e ∈ Enumeration.survey.ofFile (Pipeline.finished registry file),
    e.name = enum
  declares : ∀ file ∈ files, ∀ e ∈ Enumeration.survey.ofFile (Pipeline.finished registry file),
    e.name = enum → e.Declares registry n kind
  written : ∀ role, RefersTo (caseName n kind) (exprDocument registry role reference)
  called : n ≠ "init" → ∀ arguments hasTrailing isPure info, ∃ callee,
    RefersTo (caseName n kind) callee ∧
      exprDocument registry .value (.call reference arguments hasTrailing isPure info) =
        (WrittenCall.of (writtenArguments arguments) hasTrailing).document registry callee
  /-- The call of a case named `init` is written as a call of what it is a member of. -/
  initialized : n = "init" → ∃ base style info, reference = .member base n false style info ∧
    ∀ arguments hasTrailing isPure info,
      exprDocument registry .value (.call reference arguments hasTrailing isPure info) =
        (WrittenCall.of (writtenArguments arguments) hasTrailing).document registry
          (operand base (exprDocument registry .value base) .postfixed false)

/-- A reference that is tagged follows the declaration of the type it names. -/
theorem followsDeclaration_of_tagged {files : List SourceFile} {facts : List Fact}
    (hfacts : LearnedFrom files facts)
    (hnames : ((files.flatMap Enumeration.survey.ofFile).map Enumeration.name).Nodup)
    {base made : Expr} {n : String} {kind : EnumKind} {info : Info} {owner : Option String}
    {called : Bool}
    (htagged : (capitalizeEnumCases (Registry.empty.recordAll facts)).onExpr owner called
      (.member base n false none info) = .member made n false (some kind) info) :
    let registry := Registry.empty.recordAll facts
    ∃ enum, typeReference? base = some enum ∧
      FollowsDeclaration files registry enum n kind
        (Pipeline.rewritten registry afterTagging owner called
          (.member made n false (some kind) info)) := by
  intro registry
  obtain ⟨enum, known, henum, hknown, rfl, hn⟩ := known_of_tagged htagged
  obtain ⟨base', hreference⟩ := rewritten_tagged registry owner called made n known.kind info
  rw [hreference]
  refine ⟨enum, henum, exists_mem_finished hfacts hknown, ?_, ?_, ?_, ?_⟩
  -- The declaration, then the reference alone, then as a callee; `init` is the exception.
  · rintro file hfile e he rfl
    exact (agrees_of_mem_finished hfacts hnames hfile e he).declares hknown hn
  · exact Target.refersTo_member registry base' n false (some known.kind) info
  · intro hinit arguments hasTrailing isPure callInfo
    exact ⟨_, Target.refersTo_callee registry base' n false (some known.kind) info hinit,
      Target.exprDocument_call registry _ arguments hasTrailing isPure callInfo⟩
  · rintro rfl
    refine ⟨base', some known.kind, info, rfl, fun arguments hasTrailing isPure callInfo => ?_⟩
    exact Target.exprDocument_call registry _ arguments hasTrailing isPure callInfo

def windFile : SourceFile where
  path := "wind"
  declarations :=
    [.classDecl { name := "Chart" } false
      [.enumDecl { name := "Wind", inherits := ["Equatable"] } none
        [⟨"calm", [], none, none⟩, ⟨"init", [⟨none, "Int"⟩], none, none⟩] [] none] none]

def windCase (n : String) (style : Option EnumKind) : Expr :=
  .member (.paren (.typeName "App.Wind" {}) {}) n false style {}

/-- A file that refers to one case and calls the other. -/
def sailFile : SourceFile where
  path := "sail"
  statements :=
    [.expression (windCase "calm" none) none,
      .expression (.call (windCase "init" none) (.tuple [⟨none, .literal (.int 1) {}⟩] {}) false
        false {}) none]

open Pipeline (collect finished rewritten) in
open Target (emit caseName) in
/-- Both cases are tagged, and both are declared by their names in the other file; the call does not
name the case `Init`. -/
theorem followsDeclaration_windFile :
    let facts := (collect [] sailFile).2 ++ (collect [] windFile).2
    let registry := Registry.empty.recordAll facts
    LearnedFrom [windFile, sailFile] facts ∧
      (([windFile, sailFile].flatMap Enumeration.survey.ofFile).map Enumeration.name).Nodup ∧
      caseName "calm" .hasPayload = "Calm" ∧ caseName "init" .hasPayload = "Init" ∧
      (∀ n ∈ ["calm", "init"],
        (capitalizeEnumCases registry).onExpr none false (windCase n none) =
            windCase n (some .hasPayload) ∧
          ∃ enum, typeReference? (.paren (.typeName "App.Wind" {}) {}) = some enum ∧
            FollowsDeclaration [windFile, sailFile] registry enum n .hasPayload
              (rewritten registry afterTagging none false (windCase n (some .hasPayload)))) ∧
      emit registry {} (finished registry windFile) =
        "open class Chart \x7b\n    sealed class Wind \x7b\n        object Calm : Wind()\n" ++
          "        class Init(val value: Int) : Wind()\n    \x7d\n\x7d\n" ∧
      emit registry {} (finished registry sailFile) =
        "fun main(args: Array<String>) \x7b\n    App.Wind.Calm\n\n    App.Wind(1)\n\x7d\n" := by
  intro facts registry
  have hfacts : LearnedFrom [windFile, sailFile] facts := by
    show facts.Perm ((collect [] windFile).2 ++ ((collect [] sailFile).2 ++ []))
    rw [List.append_nil]
    exact List.perm_append_comm
  have hnames : (([windFile, sailFile].flatMap Enumeration.survey.ofFile).map
      Enumeration.name).Nodup := by decide
  refine ⟨hfacts, hnames, by decide, by decide, ?_, by decide +kernel, by decide +kernel⟩
  intro n hn
  have htagged : (capitalizeEnumCases registry).onExpr none false (windCase n none) =
      windCase n (some .hasPayload) := by
    simp only [List.mem_cons, List.not_mem_nil, or_false] at hn
    rcases hn with rfl | rfl <;> rfl
  exact ⟨htagged, followsDeclaration_of_tagged hfacts hnames htagged⟩

end Ferry
