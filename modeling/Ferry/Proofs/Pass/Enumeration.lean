/-
  Ferry.Proofs.Pass.Enumeration

  What a program knows about its enumerations and what they declare after all passes.  An
  enumeration outside expressions is classified and recorded; where all enumerations have different
  names, what is recorded under a name is what the one enumeration of that name says of itself.  No
  pass changes what an enumeration says, so they agree to the end (`agrees_of_mem_finished`).
-/
import Mathlib.Data.List.Nodup
import Ferry.Proofs.Pass.Carried
import Ferry.Proofs.Pass.Collection

namespace Ferry.Pass

/-- An enumeration as it is declared, its members aside. -/
structure Enumeration where
  head : TypeHead
  kind : Option EnumKind
  elements : List EnumElement

namespace Enumeration

def name (e : Enumeration) : String := e.head.name

def cases (e : Enumeration) : List String := e.elements.map EnumElement.name

def fact (e : Enumeration) : Fact := .enumeration e.name (classify e.head e.elements) e.cases

def survey : Survey Enumeration where
  before
    | .enumDecl head kind elements _ _ => [⟨head, kind, elements⟩]
    | _ => []

/-- That what is known under its name is what an enumeration says. -/
def Agrees (registry : Registry) (e : Enumeration) : Prop :=
  ∀ facts, registry.enumFacts? e.name = some facts → e.kind = some facts.kind ∧
    e.cases = facts.cases

end Enumeration

/-! ## Collecting -/

theorem map_name_before_mapParts (φ : Change) (s : Stmt) :
    (Enumeration.survey.before (s.mapParts φ)).map Enumeration.name =
      (Enumeration.survey.before s).map Enumeration.name := by
  cases s <;> rfl

/-- That a transform changes statements outside expressions themselves, but neither their parts nor
the name of an enumeration. -/
structure Retouches (t : Transform) (f : Stmt → Stmt) : Prop where
  enters : ∀ e, t.enters e = false
  stmt : ∀ owner s, t.stmt owner s = [f s]
  block : ∀ list, t.block list = list
  name : ∀ s, (Enumeration.survey.before (f s)).map Enumeration.name =
    (Enumeration.survey.before s).map Enumeration.name
  parts : ∀ s, (f s).parts = s.parts

theorem retouches_cleanInheritances : Retouches cleanInheritances cleanStmt where
  enters _ := rfl
  stmt _ _ := rfl
  block _ := rfl
  name s := by cases s <;> rfl
  parts s := by cases s <;> rfl

theorem retouches_classifyEnums : Retouches classifyEnums classifyStmt where
  enters _ := rfl
  stmt _ _ := rfl
  block _ := rfl
  name s := by cases s <;> rfl
  parts s := by cases s <;> rfl

namespace Retouches

variable {t : Transform} {f : Stmt → Stmt}

theorem onStmts_eq_map (h : Retouches t f) (owner : Option String) (list : List Stmt) :
    t.onStmts owner list = list.map fun s => f (t.onStmt owner s) := by
  simp only [Transform.onStmts_eq, h.block, h.stmt, List.map_eq_flatMap]

theorem map_name_onFragment (h : Retouches t f) (owner : Option String) (place : Place)
    (fragment : Fragment) :
    (Enumeration.survey.ofFragment (t.onFragment owner fragment)).map Enumeration.name =
      (Enumeration.survey.ofFragment fragment).map Enumeration.name := by
  induction place, fragment using Fragment.induction generalizing owner with
  | expr place called e ih =>
    -- Expressions are not entered, and no enumeration is declared in them.
    rw [Transform.onFragment, Transform.onExpr_eq_mapParts, if_neg (by simp [h.enters])]
  | stmts place list ih =>
    rw [Transform.onFragment, h.onStmts_eq_map, Survey.ofFragment_stmts, Survey.ofFragment_stmts,
      Survey.ofStmts_eq, Survey.ofStmts_eq, List.map_flatMap, List.map_flatMap, List.flatMap_map]
    refine List.flatMap_congr fun s hs => ?_
    -- A statement keeps the name it declares, and its parts theirs.
    have hbefore : (Enumeration.survey.before (t.onStmt owner s)).map Enumeration.name =
        (Enumeration.survey.before s).map Enumeration.name := by
      rw [Transform.onStmt_eq]
      split
      next => exact map_name_before_mapParts _ s
      next => rfl
    have hbelow : (Enumeration.survey.ofPartList (t.onStmt owner s).parts).map Enumeration.name =
        (Enumeration.survey.ofPartList s.parts).map Enumeration.name := by
      rw [Transform.onStmt_eq]
      split
      next =>
        rw [Stmt.parts_mapParts, Survey.ofPartList, Survey.ofPartList, List.map_flatMap,
          List.map_flatMap, List.flatMap_map]
        refine List.flatMap_congr fun part hpart => ?_
        rw [Transform.onPart_change]
        exact ih s hs part hpart _
      next => rfl
    rw [List.map_append, List.map_append, List.map_append, List.map_append, h.parts,
      h.name, hbefore, hbelow]
    rfl

theorem map_name_onFile (h : Retouches t f) (file : SourceFile) :
    (Enumeration.survey.ofFile (t.onFile file)).map Enumeration.name =
      (Enumeration.survey.ofFile file).map Enumeration.name := by
  have hdeclarations : (Enumeration.survey.ofStmts (t.onFile file).declarations).map
      Enumeration.name = (Enumeration.survey.ofStmts file.declarations).map Enumeration.name := by
    have hsingle : Enumeration.survey.ofStmts file.declarations =
        file.declarations.flatMap fun s => Enumeration.survey.ofStmts [s] := by
      rw [← Survey.ofStmts_flatMap, List.flatMap_singleton']
    show (Enumeration.survey.ofStmts
      (file.declarations.flatMap fun s => t.onStmts none [s])).map Enumeration.name = _
    rw [Survey.ofStmts_flatMap, hsingle, List.map_flatMap, List.map_flatMap]
    exact List.flatMap_congr fun s _ => h.map_name_onFragment none {} (.stmts [s])
  rw [Survey.ofFile, Survey.ofFile, List.map_append, List.map_append, hdeclarations]
  exact congrArg (_ ++ ·) (h.map_name_onFragment none {} (.stmts file.statements))

end Retouches

theorem map_name_collected (file : SourceFile) :
    (Enumeration.survey.ofFile (Pipeline.collected file)).map Enumeration.name =
      (Enumeration.survey.ofFile file).map Enumeration.name := by
  rw [Pipeline.collected_eq, retouches_classifyEnums.map_name_onFile,
    retouches_cleanInheritances.map_name_onFile]

theorem classify_map (head : TypeHead) (elements : List EnumElement)
    (raw : EnumElement → Option Expr) :
    classify head (elements.map fun element => { element with rawValue := raw element }) =
      classify head elements := by
  simp only [classify, List.all_map, Function.comp_def]

theorem before_enumSurvey_mapParts (φ : Change) (s : Stmt) :
    enumSurvey.before (s.mapParts φ) = enumSurvey.before s := by
  cases s with
  | enumDecl head kind elements members span =>
    show [Fact.enumeration head.name (classify head (elements.map _)) ((elements.map _).map _)] = _
    rw [classify_map, List.map_map]
    rfl
  | _ => rfl

@[simp] theorem ofExpr_enumSurvey (e : Expr) : enumSurvey.ofExpr e = [] := by
  cases e <;> rfl

theorem exists_of_mem_before {s : Stmt} {fact : Fact} (h : fact ∈ enumSurvey.before s) :
    ∃ e ∈ Enumeration.survey.before (classifyStmt s),
      e.kind = some (classify e.head e.elements) ∧ e.fact = fact := by
  cases s with
  | enumDecl head kind elements members span =>
    exact ⟨⟨head, some (classify head elements), elements⟩, List.mem_singleton_self _, rfl,
      (List.mem_singleton.mp h).symm⟩
  | _ => exact absurd h List.not_mem_nil

/-- What is recorded of an enumeration is what it declares once it is classified. -/
theorem exists_classified {fact : Fact} (owner : Option String) (place : Place)
    (fragment : Fragment) (h : fact ∈ enumSurvey.ofFragment fragment) :
    ∃ e ∈ Enumeration.survey.ofFragment (classifyEnums.onFragment owner fragment),
      e.kind = some (classify e.head e.elements) ∧ e.fact = fact := by
  induction place, fragment using Fragment.induction generalizing owner with
  | expr place called e ih =>
    rw [Survey.ofFragment_expr, ofExpr_enumSurvey] at h
    exact absurd h List.not_mem_nil
  | stmts place list ih =>
    obtain ⟨s, hs, h⟩ := Survey.mem_ofStmts_iff.mp h
    have hmade : classifyStmt (s.mapParts (classifyEnums.change owner)) ∈
        classifyEnums.onStmts owner list := by
      rw [retouches_classifyEnums.onStmts_eq_map]
      exact List.mem_map.mpr ⟨s, hs, congrArg classifyStmt (classifyEnums.onStmt_eq owner s)⟩
    -- The enumeration itself, or one in a part of the statement.
    obtain h | h | h := h
    · rw [← before_enumSurvey_mapParts (classifyEnums.change owner)] at h
      obtain ⟨e, he, hkind, hfact⟩ := exists_of_mem_before h
      exact ⟨e, Survey.mem_ofStmts_iff.mpr ⟨_, hmade, .inl he⟩, hkind, hfact⟩
    · obtain ⟨part, hpart, h⟩ := Survey.mem_ofPartList.mp h
      obtain ⟨e, he, hkind, hfact⟩ := ih s hs part hpart (part.1.owner owner) h
      refine ⟨e, Survey.mem_ofStmts_iff.mpr ⟨_, hmade, .inr (.inl ?_)⟩, hkind, hfact⟩
      rw [retouches_classifyEnums.parts, Stmt.parts_mapParts]
      refine Survey.mem_ofPartList.mpr ⟨_, List.mem_map_of_mem hpart, ?_⟩
      rw [Transform.onPart_change]
      exact he
    · exact absurd h List.not_mem_nil

theorem exists_mem_collected {file : SourceFile} {fact : Fact}
    (h : fact ∈ enumSurvey.ofFile (cleanInheritances.onFile file)) :
    ∃ e ∈ Enumeration.survey.ofFile (Pipeline.collected file),
      e.kind = some (classify e.head e.elements) ∧ e.fact = fact := by
  rw [Pipeline.collected_eq]
  obtain ⟨s, hs, h⟩ | h := Survey.mem_ofFile_iff.mp h
  · obtain ⟨e, he, hrest⟩ := exists_classified none {} (.stmts [s]) h
    exact ⟨e, Survey.mem_ofFile_onFile_iff.mpr (.inl ⟨s, hs, he⟩), hrest⟩
  · obtain ⟨e, he, hrest⟩ := exists_classified none {} (.stmts _) h
    exact ⟨e, Survey.mem_ofFile_onFile_iff.mpr (.inr he), hrest⟩

/-! ## What is known -/

def isOfEnumeration : Fact → Bool
  | .enumeration .. => true
  | _ => false

theorem isOfEnumeration_protocolSurvey {file : SourceFile} :
    ∀ fact ∈ protocolSurvey.ofFile file, isOfEnumeration fact = false := by
  refine Survey.forall_mem_ofFile_of_nodes (fun _ => List.forall_mem_nil _) (fun s fact hfact => ?_)
    fun _ => List.forall_mem_nil _
  cases s with
  | protocolDecl head members span => rw [List.mem_singleton.mp hfact]; rfl
  | _ => exact absurd hfact List.not_mem_nil

theorem isOfEnumeration_typeSurvey {file : SourceFile} :
    ∀ fact ∈ typeSurvey.ofFile file, isOfEnumeration fact = false := by
  refine Survey.forall_mem_ofFile_of_nodes (fun _ => List.forall_mem_nil _) (fun s fact hfact => ?_)
    fun _ => List.forall_mem_nil _
  cases s with
  | classDecl | structDecl => rw [List.mem_singleton.mp hfact]; rfl
  | _ => exact absurd hfact List.not_mem_nil

theorem isOfEnumeration_functionsOfFile {file : SourceFile} :
    ∀ fact ∈ functionsOfFile file, isOfEnumeration fact = false := by
  intro fact hfact
  obtain ⟨d, -, hfact⟩ := mem_functionsOfFile.mp hfact
  cases fact with
  | enumeration name kind cases =>
    rw [Declaration.facts, functionFacts, List.mem_append] at hfact
    obtain hfact | hfact := hfact
    · split at hfact
      next => exact absurd (List.mem_singleton.mp hfact) Fact.noConfusion
      next => exact absurd hfact List.not_mem_nil
    · exact absurd (List.mem_singleton.mp hfact) Fact.noConfusion
  | _ => rfl

theorem mem_enumSurvey_of_mem_collect {file : SourceFile} {fact : Fact}
    (hfact : isOfEnumeration fact = true) (h : fact ∈ (Pipeline.collect [] file).2) :
    fact ∈ enumSurvey.ofFile (cleanInheritances.onFile file) := by
  rw [collect_facts] at h
  simp only [List.mem_append, List.not_mem_nil, or_false] at h
  obtain h | h | h | h := h
  · exact h
  · exact absurd (hfact.symm.trans (isOfEnumeration_protocolSurvey fact h)) Bool.true_eq_false.mp
  · exact absurd (hfact.symm.trans (isOfEnumeration_functionsOfFile fact h)) Bool.true_eq_false.mp
  · exact absurd (hfact.symm.trans (isOfEnumeration_typeSurvey fact h)) Bool.true_eq_false.mp

section

variable {files : List SourceFile} {facts : List Fact} (hfacts : LearnedFrom files facts)

include hfacts

theorem exists_of_enumFacts? {name : String} {known : EnumFacts}
    (h : (Registry.empty.recordAll facts).enumFacts? name = some known) :
    ∃ file ∈ files, .enumeration name known.kind known.cases ∈
      enumSurvey.ofFile (cleanInheritances.onFile file) := by
  have hknown : Registry.knownFrom facts (.enumeration name) =
      some (.enumeration name known.kind known.cases) := congrArg (Option.map _) h
  have hmem := hfacts.mem_iff.mp (Registry.mem_of_knownFrom hknown).1
  obtain ⟨file, hfile, hmem⟩ := List.mem_flatMap.mp hmem
  exact ⟨file, hfile, mem_enumSurvey_of_mem_collect rfl hmem⟩

theorem agrees_of_mem_collected
    (hnames : ((files.flatMap Enumeration.survey.ofFile).map Enumeration.name).Nodup)
    {file : SourceFile} (hfile : file ∈ files) {e : Enumeration}
    (he : e ∈ Enumeration.survey.ofFile (Pipeline.collected file)) :
    e.Agrees (Registry.empty.recordAll facts) := by
  intro known hknown
  obtain ⟨other, hother, hmem⟩ := exists_of_enumFacts? hfacts hknown
  obtain ⟨e', he', hkind, hfact⟩ := exists_mem_collected hmem
  have hcollected : ((files.flatMap fun file =>
      Enumeration.survey.ofFile (Pipeline.collected file)).map Enumeration.name).Nodup := by
    simp only [List.map_flatMap, map_name_collected] at hnames ⊢
    exact hnames
  obtain ⟨hname, hclassified, hcases⟩ := Fact.enumeration.inj hfact
  -- The enumeration that told and this one have one name, so they are the same.
  obtain rfl : e = e' := List.inj_on_of_nodup_map hcollected
    (List.mem_flatMap.mpr ⟨file, hfile, he⟩) (List.mem_flatMap.mpr ⟨other, hother, he'⟩) hname.symm
  exact ⟨hkind.trans (congrArg some hclassified), hcases⟩

end

/-! ## After all passes -/

/-- Every enumeration agrees with what is known under its name. -/
def agrees (registry : Registry) : Demand where
  stmt _ s := ∀ e ∈ Enumeration.survey.before s, e.Agrees registry

theorem isFree_agrees (registry : Registry) : (agrees registry).IsFree := by
  refine isFree_of_stmt ?_ ?_ ?_ ?_
  · intro φ s h e he
    cases s with
    | enumDecl head kind elements members span =>
      obtain rfl := List.mem_singleton.mp he
      intro known hknown
      obtain ⟨hkind, hcases⟩ := h ⟨head, kind, elements⟩ (List.mem_singleton_self _) known hknown
      refine ⟨hkind, ?_⟩
      show (elements.map _).map EnumElement.name = known.cases
      rw [List.map_map]
      exact hcases
    | _ => exact absurd he List.not_mem_nil
  · intro s hwatched e he
    cases s with
    | enumDecl => exact absurd hwatched Bool.true_eq_false.mp
    | _ => exact absurd he List.not_mem_nil
  · exact fun _ _ _ _ e he => absurd he List.not_mem_nil
  · exact fun _ e he => absurd he List.not_mem_nil

theorem agrees_of_mem_finished {files : List SourceFile} {facts : List Fact}
    (hfacts : LearnedFrom files facts)
    (hnames : ((files.flatMap Enumeration.survey.ofFile).map Enumeration.name).Nodup)
    {file : SourceFile} (hfile : file ∈ files) :
    let registry := Registry.empty.recordAll facts
    ∀ e ∈ Enumeration.survey.ofFile (Pipeline.finished registry file), e.Agrees registry := by
  intro registry
  have hdemand : (Enumeration.survey.demand (·.Agrees registry)).MetFile
      (Pipeline.collected file) :=
    (Survey.metFile_demand_iff (fun _ => rfl) rfl).mpr fun e he =>
      agrees_of_mem_collected hfacts hnames hfile he
  have hcollected : (agrees registry).MetFile (Pipeline.collected file) := by
    refine hdemand.mono (fun _ => trivial) ?_ fun _ => trivial
    exact fun own => own.1
  have hfinished : (agrees registry).MetFile (Pipeline.finished registry file) := by
    rw [Pipeline.finished_eq_changed]
    exact Pipeline.metFile_changed (carries_of_isFree (isFree_agrees registry) registry) hcollected
  refine Survey.forall_mem_ofFile (hfinished.mono ?_ ?_ fun _ => trivial)
  · exact fun _ e he => absurd he List.not_mem_nil
  · exact fun own => ⟨own, fun e he => absurd he List.not_mem_nil⟩

end Ferry.Pass
