/-
  Ferry.Proofs.Pass.Declaration

  The functions of a program and what is learned of them.  A function is declared at the top of a
  file, as a member of a type, an extension or a companion at any depth, or as a statement of the
  body of a declared function (`DeclaredIn`).

  `parameterNames?_of_declared`, `parameterNames?_of_not_declared` and `isPure_iff_declared` say
  what a registry answers about functions once every file of a program has been learned from, in
  whatever order.
-/
import Ferry.Proofs.Pass.Pipeline
import Ferry.Proofs.Registry
import Ferry.Proofs.Traverse.Reach

namespace Ferry.Pass

open Pipeline (collected collected_eq)

/-- A function with the type it belongs to. -/
structure Declaration where
  owner : Option String
  head : FunctionHead
  parameters : List Parameter

namespace Declaration

def labels (d : Declaration) : List (Option String) := d.parameters.map Parameter.label

def names (d : Declaration) : List String := d.parameters.map Parameter.name

/-- The key under which calls find the function. -/
def key (d : Declaration) : String := signatureKey (calledName d.head d.owner) d.labels

def facts (d : Declaration) : List Fact := functionFacts d.owner d.head d.parameters

theorem function_mem_facts {d : Declaration} {key : String} {names : List String} :
    .function key names ∈ d.facts ↔ d.key = key ∧ d.names = names := by
  rw [facts, functionFacts, List.mem_append, List.mem_singleton, Fact.function.injEq]
  constructor
  · rintro (h | ⟨rfl, rfl⟩)
    · split at h <;> simp at h
    · exact ⟨rfl, rfl⟩
  · rintro ⟨rfl, rfl⟩
    exact .inr ⟨rfl, rfl⟩

theorem pureFunction_mem_facts {d : Declaration} {key : String} :
    .pureFunction key ∈ d.facts ↔ d.head.isPure = true ∧ d.key = key := by
  rw [facts, functionFacts, List.mem_append]
  constructor
  · rintro (h | h)
    · split at h
      next hpure =>
        rw [List.mem_singleton, Fact.pureFunction.injEq] at h
        exact ⟨hpure, h.symm⟩
      next => exact absurd h (by simp)
    · exact absurd h (by simp)
  · rintro ⟨hpure, rfl⟩
    rw [if_pos hpure]
    exact .inl (List.mem_singleton.mpr rfl)

end Declaration

/-- That a function is declared by statements that belong to a type or to none. -/
inductive DeclaredIn (d : Declaration) : (owner : Option String) → List Stmt → Prop where
  | here {stmts : List Stmt} {body : Option (List Stmt)} {span : Option Span}
      (h : .function d.head d.parameters body span ∈ stmts) : DeclaredIn d d.owner stmts
  | inBody {owner : Option String} {stmts body : List Stmt} {head : FunctionHead}
      {parameters : List Parameter} {span : Option Span}
      (h : .function head parameters (some body) span ∈ stmts) (hd : DeclaredIn d owner body) :
      DeclaredIn d owner stmts
  | inClass {owner : Option String} {stmts members : List Stmt} {head : TypeHead} {isFinal : Bool}
      {span : Option Span} (h : .classDecl head isFinal members span ∈ stmts)
      (hd : DeclaredIn d (some head.name) members) : DeclaredIn d owner stmts
  | inStruct {owner : Option String} {stmts members : List Stmt} {head : TypeHead}
      {span : Option Span} (h : .structDecl head members span ∈ stmts)
      (hd : DeclaredIn d (some head.name) members) : DeclaredIn d owner stmts
  | inEnum {owner : Option String} {stmts members : List Stmt} {head : TypeHead}
      {kind : Option EnumKind} {elements : List EnumElement} {span : Option Span}
      (h : .enumDecl head kind elements members span ∈ stmts)
      (hd : DeclaredIn d (some head.name) members) : DeclaredIn d owner stmts
  | inProtocol {owner : Option String} {stmts members : List Stmt} {head : TypeHead}
      {span : Option Span} (h : .protocolDecl head members span ∈ stmts)
      (hd : DeclaredIn d (some head.name) members) : DeclaredIn d owner stmts
  | inExtension {owner : Option String} {stmts members : List Stmt} {extended : String}
      {inherits : List String} {span : Option Span}
      (h : .extensionDecl extended inherits members span ∈ stmts)
      (hd : DeclaredIn d (some extended) members) : DeclaredIn d owner stmts
  | inCompanion {owner : Option String} {stmts members : List Stmt} {span : Option Span}
      (h : .companion members span ∈ stmts) (hd : DeclaredIn d owner members) :
      DeclaredIn d owner stmts

/-- That a function is declared somewhere in a file. -/
def DeclaredBy (file : SourceFile) (d : Declaration) : Prop :=
  DeclaredIn d none file.declarations ∨ DeclaredIn d none file.statements

/-! ## The facts of declared functions -/

theorem functionsIn_eq_flatMap (owner : Option String) (stmts : List Stmt) :
    functionsIn owner stmts = stmts.flatMap (functionsOf owner) := by
  induction stmts with
  | nil => rfl
  | cons s rest ih => rw [List.flatMap_cons, ← ih]; rfl

theorem functionsOf_subset {owner : Option String} {s : Stmt} {stmts : List Stmt} (h : s ∈ stmts) :
    functionsOf owner s ⊆ functionsIn owner stmts := by
  intro fact hfact
  rw [functionsIn_eq_flatMap]
  exact List.mem_flatMap.mpr ⟨s, h, hfact⟩

theorem facts_subset {d : Declaration} {owner : Option String} {stmts : List Stmt}
    (h : DeclaredIn d owner stmts) : d.facts ⊆ functionsIn owner stmts := by
  induction h with
  | @here _ body _ h =>
    intro fact hfact
    apply functionsOf_subset h
    cases body <;> exact List.mem_append_left _ hfact
  | inBody h _ ih =>
    intro fact hfact
    exact functionsOf_subset h (List.mem_append_right _ (ih hfact))
  | inClass h _ ih | inStruct h _ ih | inEnum h _ ih | inProtocol h _ ih | inExtension h _ ih
  | inCompanion h _ ih =>
    intro fact hfact
    exact functionsOf_subset h (ih hfact)

theorem exists_declared {owner : Option String} {stmts : List Stmt} {fact : Fact}
    (h : fact ∈ functionsIn owner stmts) : ∃ d, DeclaredIn d owner stmts ∧ fact ∈ d.facts := by
  induction stmts using Fragment.stmts_induction generalizing owner with
  | h stmts ih =>
    rw [functionsIn_eq_flatMap] at h
    obtain ⟨s, hs, h⟩ := List.mem_flatMap.mp h
    cases s with
    | function head parameters body span =>
      cases body with
      | none =>
        exact ⟨⟨owner, head, parameters⟩, .here hs, (List.mem_append.mp h).resolve_right
          List.not_mem_nil⟩
      | some body =>
        -- The function itself, or one declared in its body.
        obtain h | h := List.mem_append.mp h
        · exact ⟨⟨owner, head, parameters⟩, .here hs, h⟩
        obtain ⟨d, hd, hfact⟩ := ih _ hs (List.mem_append_right _ (List.mem_singleton_self _)) h
        exact ⟨d, .inBody hs hd, hfact⟩
    | classDecl =>
      obtain ⟨d, hd, hfact⟩ := ih _ hs (List.mem_singleton_self _) h
      exact ⟨d, .inClass hs hd, hfact⟩
    | structDecl =>
      obtain ⟨d, hd, hfact⟩ := ih _ hs (List.mem_singleton_self _) h
      exact ⟨d, .inStruct hs hd, hfact⟩
    | enumDecl =>
      obtain ⟨d, hd, hfact⟩ := ih _ hs (List.mem_append_right _ (List.mem_singleton_self _)) h
      exact ⟨d, .inEnum hs hd, hfact⟩
    | extensionDecl =>
      obtain ⟨d, hd, hfact⟩ := ih _ hs (List.mem_singleton_self _) h
      exact ⟨d, .inExtension hs hd, hfact⟩
    | protocolDecl =>
      obtain ⟨d, hd, hfact⟩ := ih _ hs (List.mem_singleton_self _) h
      exact ⟨d, .inProtocol hs hd, hfact⟩
    | companion =>
      obtain ⟨d, hd, hfact⟩ := ih _ hs (List.mem_singleton_self _) h
      exact ⟨d, .inCompanion hs hd, hfact⟩
    | _ => exact absurd h List.not_mem_nil

theorem mem_functionsOfFile {file : SourceFile} {fact : Fact} :
    fact ∈ functionsOfFile file ↔ ∃ d, DeclaredBy file d ∧ fact ∈ d.facts := by
  rw [functionsOfFile, List.mem_append]
  constructor
  · rintro (h | h)
    · obtain ⟨d, hd, hfact⟩ := exists_declared h
      exact ⟨d, .inl hd, hfact⟩
    · obtain ⟨d, hd, hfact⟩ := exists_declared h
      exact ⟨d, .inr hd, hfact⟩
  · rintro ⟨d, hd | hd, hfact⟩
    · exact .inl (facts_subset hd hfact)
    · exact .inr (facts_subset hd hfact)

/-! ## Collecting leaves the functions alone -/

/-- A transform that changes no declaration of a function: it keeps every statement in its place and
    touches neither functions nor the members of types. -/
structure KeepsFunctions (t : Transform) : Prop where
  block : ∀ stmts, t.block stmts = stmts
  stmt : ∀ owner s, ∃ s', t.stmt owner s = [s'] ∧ ∀ o, functionsOf o s' = functionsOf o s

namespace KeepsFunctions

variable {t : Transform}

theorem functionsOf_mapParts {φ : Change} {s : Stmt} (h : ∀ step list,
    (step, Fragment.stmts list) ∈ s.parts → ∀ o, functionsIn o (φ.stmts step list) =
      functionsIn o list)
    (o : Option String) : functionsOf o (s.mapParts φ) = functionsOf o s := by
  cases s with
  | function head parameters body span =>
    have hfacts : functionFacts o head (parameters.map fun parameter =>
        { parameter with default := parameter.default.map φ.value }) =
        functionFacts o head parameters := by
      simp [functionFacts, Function.comp_def]
    cases body with
    | none => exact congrArg (· ++ []) hfacts
    | some body =>
      exact congrArg₂ (· ++ ·) hfacts
        (h _ _ (List.mem_append_right _ (List.mem_singleton_self _)) o)
  | enumDecl => exact h _ _ (List.mem_append_right _ (List.mem_singleton_self _)) _
  | classDecl | structDecl | extensionDecl | protocolDecl | companion =>
    exact h _ _ (List.mem_singleton_self _) _
  | _ => rfl

theorem functionsIn_onStmts (h : KeepsFunctions t) (owner : Option String) (stmts : List Stmt)
    (o : Option String) : functionsIn o (t.onStmts owner stmts) = functionsIn o stmts := by
  induction stmts using Fragment.stmts_induction generalizing owner o with
  | h stmts ih =>
    rw [Transform.onStmts_eq, h.block, functionsIn_eq_flatMap, functionsIn_eq_flatMap,
      List.flatMap_assoc]
    refine List.flatMap_congr fun s hs => ?_
    obtain ⟨s', hs', hfunctions⟩ := h.stmt owner (t.onStmt owner s)
    rw [hs', List.flatMap_singleton, hfunctions, Transform.onStmt_eq]
    split
    next => exact functionsOf_mapParts (fun _ _ hpart => ih s hs hpart _) o
    next => rfl

theorem functionsOfFile_onFile (h : KeepsFunctions t) (file : SourceFile) :
    functionsOfFile (t.onFile file) = functionsOfFile file := by
  have hdeclarations : ∀ stmts : List Stmt,
      functionsIn none (stmts.flatMap fun s => t.onStmts none [s]) = functionsIn none stmts := by
    intro stmts
    rw [functionsIn_eq_flatMap, functionsIn_eq_flatMap, List.flatMap_assoc]
    refine List.flatMap_congr fun s _ => ?_
    rw [← functionsIn_eq_flatMap, h.functionsIn_onStmts, functionsIn_eq_flatMap,
      List.flatMap_singleton]
  rw [functionsOfFile, functionsOfFile]
  exact congrArg₂ (· ++ ·) (hdeclarations file.declarations)
    (h.functionsIn_onStmts none file.statements none)

end KeepsFunctions

theorem keepsFunctions_cleanInheritances : KeepsFunctions cleanInheritances where
  block _ := rfl
  stmt _ s := ⟨cleanStmt s, rfl, fun _ => by cases s <;> rfl⟩

theorem keepsFunctions_classifyEnums : KeepsFunctions classifyEnums where
  block _ := rfl
  stmt _ s := ⟨classifyStmt s, rfl, fun _ => by cases s <;> rfl⟩

/-! ## What is known after every file has been learned from -/

theorem collect_facts (file : SourceFile) :
    (Pipeline.collect [] file).2 =
      enumSurvey.ofFile (cleanInheritances.onFile file) ++
        (protocolSurvey.ofFile (collected file) ++
        (functionsOfFile (collected file) ++ (typeSurvey.ofFile (collected file) ++ []))) :=
  rfl

theorem functionsOfFile_collected (file : SourceFile) :
    functionsOfFile (collected file) = functionsOfFile file := by
  rw [collected_eq, keepsFunctions_classifyEnums.functionsOfFile_onFile,
    keepsFunctions_cleanInheritances.functionsOfFile_onFile]

/-- A survey of statements whose findings are not about functions. -/
theorem isOfFunction_of_mem_survey {s : Survey Fact} (hexpr : ∀ e, s.expr e = [])
    (hbefore : ∀ stmt, ∀ fact ∈ s.before stmt, fact.isOfFunction = false)
    (hafter : ∀ stmt, s.after stmt = []) {file : SourceFile} {fact : Fact}
    (h : fact ∈ s.ofFile file) : fact.isOfFunction = false := by
  refine Survey.forall_mem_ofFile_of_nodes (fun e => ?_) hbefore (fun stmt => ?_) fact h
  · rw [hexpr]
    exact List.forall_mem_nil _
  · rw [hafter]
    exact List.forall_mem_nil _

theorem not_isOfFunction_enumSurvey {file : SourceFile} {fact : Fact}
    (h : fact ∈ enumSurvey.ofFile file) : fact.isOfFunction = false := by
  refine isOfFunction_of_mem_survey (fun _ => rfl) (fun stmt fact hfact => ?_) (fun _ => rfl) h
  cases stmt <;> simp_all [enumSurvey, Fact.isOfFunction]

theorem not_isOfFunction_protocolSurvey {file : SourceFile} {fact : Fact}
    (h : fact ∈ protocolSurvey.ofFile file) : fact.isOfFunction = false := by
  refine isOfFunction_of_mem_survey (fun _ => rfl) (fun stmt fact hfact => ?_) (fun _ => rfl) h
  cases stmt <;> simp_all [protocolSurvey, Fact.isOfFunction]

theorem not_isOfFunction_typeSurvey {file : SourceFile} {fact : Fact}
    (h : fact ∈ typeSurvey.ofFile file) : fact.isOfFunction = false := by
  refine isOfFunction_of_mem_survey (fun _ => rfl) (fun stmt fact hfact => ?_) (fun _ => rfl) h
  cases stmt <;> simp_all [typeSurvey, Fact.isOfFunction]

/-- What collecting learns of functions is what the declared ones tell. -/
theorem mem_collect_facts {file : SourceFile} {fact : Fact} (hfact : fact.isOfFunction = true) :
    fact ∈ (Pipeline.collect [] file).2 ↔ ∃ d, DeclaredBy file d ∧ fact ∈ d.facts := by
  rw [← mem_functionsOfFile, ← functionsOfFile_collected, collect_facts]
  simp only [List.mem_append, List.not_mem_nil, or_false]
  constructor
  · rintro (h | h | h | h)
    · exact absurd hfact (by simp [not_isOfFunction_enumSurvey h])
    · exact absurd hfact (by simp [not_isOfFunction_protocolSurvey h])
    · exact h
    · exact absurd hfact (by simp [not_isOfFunction_typeSurvey h])
  · exact fun h => .inr (.inr (.inl h))

section

variable {files : List SourceFile} {facts : List Fact}

/-- That facts are those of some files, in any order. -/
def LearnedFrom (files : List SourceFile) (facts : List Fact) : Prop :=
  facts.Perm (files.flatMap fun file => (Pipeline.collect [] file).2)

def Declared (files : List SourceFile) (d : Declaration) : Prop :=
  ∃ file ∈ files, DeclaredBy file d

theorem mem_facts_iff (h : LearnedFrom files facts) {fact : Fact}
    (hfact : fact.isOfFunction = true) : fact ∈ facts ↔ ∃ d, Declared files d ∧ fact ∈ d.facts := by
  rw [h.mem_iff, List.mem_flatMap]
  constructor
  · rintro ⟨file, hfile, hmem⟩
    obtain ⟨d, hd, hmem⟩ := (mem_collect_facts hfact).mp hmem
    exact ⟨d, ⟨file, hfile, hd⟩, hmem⟩
  · rintro ⟨d, ⟨file, hfile, hd⟩, hmem⟩
    exact ⟨file, hfile, (mem_collect_facts hfact).mpr ⟨d, hd, hmem⟩⟩

theorem mem_namesFor (h : LearnedFrom files facts) {key : String} {names : List String} :
    names ∈ facts.filterMap (Fact.namesFor? key) ↔
      ∃ d, Declared files d ∧ d.key = key ∧ d.names = names := by
  rw [List.mem_filterMap]
  constructor
  · rintro ⟨fact, hmem, hnames⟩
    cases fact with
    | function k names' =>
      rw [Fact.namesFor?] at hnames
      split at hnames
      next hkey =>
        obtain rfl := Option.some.inj hnames
        subst hkey
        obtain ⟨d, hd, hfact⟩ := (mem_facts_iff h rfl).mp hmem
        exact ⟨d, hd, Declaration.function_mem_facts.mp hfact⟩
      next => exact absurd hnames (by simp)
    | _ => exact absurd hnames (by simp [Fact.namesFor?])
  · rintro ⟨d, hd, hkey, hnames⟩
    refine ⟨.function key names, ?_, if_pos rfl⟩
    exact (mem_facts_iff h rfl).mpr ⟨d, hd, Declaration.function_mem_facts.mpr ⟨hkey, hnames⟩⟩

theorem parameterNames?_of_declared (h : LearnedFrom files facts) {d : Declaration}
    (hd : Declared files d) (hunique : ∀ g, Declared files g → g.key = d.key → g.names = d.names) :
    (Registry.empty.recordAll facts).parameterNames? d.key = some d.names := by
  rw [Registry.parameterNames?_recordAll]
  have hmem : d.names ∈ facts.filterMap (Fact.namesFor? d.key) :=
    (mem_namesFor h).mpr ⟨d, hd, rfl, rfl⟩
  cases hlast : (facts.filterMap (Fact.namesFor? d.key)).getLast? with
  | none =>
    rw [List.getLast?_eq_none_iff] at hlast
    rw [hlast] at hmem
    exact absurd hmem List.not_mem_nil
  | some names =>
    obtain ⟨g, hg, hkey, rfl⟩ := (mem_namesFor h).mp (List.mem_of_getLast? hlast)
    rw [hunique g hg hkey]
    rfl

theorem parameterNames?_of_not_declared (h : LearnedFrom files facts) {key : String}
    (hkey : ∀ g, Declared files g → g.key ≠ key) :
    (Registry.empty.recordAll facts).parameterNames? key = none := by
  rw [Registry.parameterNames?_recordAll]
  have hnil : facts.filterMap (Fact.namesFor? key) = [] := by
    rw [List.eq_nil_iff_forall_not_mem]
    intro names hmem
    obtain ⟨g, hg, hgkey, -⟩ := (mem_namesFor h).mp hmem
    exact hkey g hg hgkey
  rw [hnil]
  rfl

theorem isPure_iff_declared (h : LearnedFrom files facts) {key : String} :
    (Registry.empty.recordAll facts).isPure key = true ↔
      ∃ d, Declared files d ∧ d.head.isPure = true ∧ d.key = key := by
  have hempty : Registry.empty.isPure key = false := rfl
  rw [Registry.isPure_recordAll, hempty, mem_facts_iff h rfl]
  simp only [Bool.false_eq_true, false_or, Declaration.pureFunction_mem_facts]

end

end Ferry.Pass
