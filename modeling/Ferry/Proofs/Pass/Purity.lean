/-
  Ferry.Proofs.Pass.Purity

  Which calls are marked as pure.  A call is looked up by its key when calls are marked, and by then
  it has been put under the names of the parameters.  So it is not the key the call was written with
  that decides but the one it has under those names (`CallExpr.namedKey?`): a call of a pure
  function is marked only if that key is the key of a pure function too, and a call of any other
  function is marked if it is.

  `isPure_finished` follows every call of a changed file back to the call it was read as, and every
  call of the file as it was read to what becomes of it.  The only other calls of a changed file are
  those that stand for properties of the library, which are never marked.
-/
import Ferry.Proofs.Pass.CallOrigin

namespace Ferry

open Survey
open Pipeline (beforeNaming finished finished_eq)

namespace CallExpr

/-- The key of a call once it is under the names of the parameters. -/
def namedKey? (registry : Registry) (call : CallExpr) : Option String :=
  call.callee.callKey? (Pass.namedArguments registry call.callee call.arguments)

/-- A call that passes before naming keep as it is: not of an initializer or an anonymous parameter,
    and without parentheses around its arguments. -/
structure IsRegular (call : CallExpr) : Prop where
  isNoInitializer : call.callee.calleeName? ≠ some "init"
  isNamed : ∀ name, call.callee.calleeName? = some name → Pass.anonymousIndex? name = none
  isBare : call.arguments.isParen = false

/-- A call that stands for a property of the library. -/
structure IsMade (call : CallExpr) : Prop where
  callee : ∃ base name style info, call.callee = .member base name false style info
  arguments : call.arguments = .tuple [] {}
  isPure : call.isPure = false

/-- That two calls are written and marked alike. -/
structure SameMark (before after : CallExpr) : Prop where
  hasTrailing : after.hasTrailing = before.hasTrailing
  isPure : after.isPure = before.isPure
  info : after.info = before.info

end CallExpr

namespace Pass

/-! ## Labels without values -/

theorem argumentLabels_bare (e : Expr) : e.bare.argumentLabels = e.argumentLabels := by
  cases e with
  | tuple elements info =>
    show (elements.map _).map Argument.label = elements.map Argument.label
    rw [List.map_map]
    rfl
  | shuffle slots info =>
    show (slots.map _).map Slot.label = slots.map Slot.label
    rw [List.map_map]
    exact List.map_congr_left fun slot _ => Slot.label_mapValues _ slot
  | _ => rfl

theorem relabelArguments_map (names : List String) (elements : List Argument) (g : Expr → Expr) :
    relabelArguments names (elements.map fun argument => ⟨argument.label, g argument.value⟩) =
      (relabelArguments names elements).map fun argument => ⟨argument.label, g argument.value⟩ := by
  rw [relabelArguments, relabelArguments, List.zipWith_map_left, List.map_zipWith]
  congr 1
  funext argument name
  split <;> rfl

theorem relabelSlots_map (afterAbsent : Bool) (names : List String) (slots : List Slot)
    (g : Expr → Expr) :
    relabelSlots afterAbsent names (slots.map (Slot.mapValues g)) =
      (relabelSlots afterAbsent names slots).map (Slot.mapValues g) := by
  induction slots generalizing afterAbsent names with
  | nil => cases names <;> rfl
  | cons slot rest ih =>
    cases names with
    | nil => rfl
    | cons name names =>
      cases slot with
      | absent label => exact congrArg _ (ih true names)
      | present label value => exact congrArg _ (ih afterAbsent names)
      | variadic label values => exact congrArg _ (ih afterAbsent names)

theorem argumentLabels_relabelCall_bare (names : List String) (e : Expr) :
    (relabelCall names e.bare).argumentLabels = (relabelCall names e).argumentLabels := by
  cases e with
  | tuple elements info =>
    rw [Expr.bare, relabelCall, relabelCall, List.length_map]
    split
    next =>
      rw [relabelArguments_map names elements fun _ => .literal .nil {}, Expr.argumentLabels,
        Expr.argumentLabels, List.map_map]
      rfl
    next => exact argumentLabels_bare (.tuple elements info)
  | shuffle slots info =>
    rw [Expr.bare, relabelCall, relabelCall, List.length_map]
    split
    next =>
      rw [relabelSlots_map, Expr.argumentLabels, Expr.argumentLabels, List.map_map]
      exact List.map_congr_left fun slot _ => Slot.label_mapValues _ slot
    next => exact argumentLabels_bare (.shuffle slots info)
  | _ => rfl

theorem namedKey?_congr (registry : Registry) (before after : CallExpr)
    (hname : after.callee.calleeName? = before.callee.calleeName?)
    (hbare : after.arguments.bare = before.arguments.bare) :
    after.namedKey? registry = before.namedKey? registry := by
  have hlabels : after.arguments.argumentLabels = before.arguments.argumentLabels := by
    rw [← argumentLabels_bare, hbare, argumentLabels_bare]
  have hkey : after.callee.callKey? after.arguments = before.callee.callKey? before.arguments := by
    rw [Expr.callKey?, Expr.callKey?, hname, hlabels]
  have hnamed : (namedArguments registry after.callee after.arguments).argumentLabels =
      (namedArguments registry before.callee before.arguments).argumentLabels := by
    rw [namedArguments, namedArguments, hkey]
    split
    next names _ =>
      rw [← argumentLabels_relabelCall_bare, hbare, argumentLabels_relabelCall_bare]
    next => exact hlabels
  rw [CallExpr.namedKey?, CallExpr.namedKey?, Expr.callKey?, Expr.callKey?, hname, hnamed]

theorem bare_nameArguments (registry : Registry) (e : Expr) :
    (nameArguments registry e).bare = e.bare := by
  cases e with
  | call callee arguments hasTrailing isPure info => rw [nameArguments_call]; rfl
  | _ => rfl

theorem key?_namedCall (registry : Registry) (owner : Option String) (call : CallExpr) :
    (namedCall registry owner call).key? = call.namedKey? registry := by
  have hbare : ((callLabelsToParameterNames registry).onExpr owner false call.arguments).bare =
      call.arguments.bare := by
    rw [Transform.onExpr_eq_mapParts]
    show (nameArguments registry _).bare = _
    rw [bare_nameArguments, Expr.bare_mapParts]
  exact namedKey?_congr registry call ⟨_, _, call.hasTrailing, call.isPure, call.info⟩
    (calleeName?_onExpr_callLabels registry owner true call.callee) hbare

/-! ## Marking -/

/-- What marking makes of a call. -/
structure IsMarked (registry : Registry) (before after : CallExpr) : Prop where
  hasTrailing : after.hasTrailing = before.hasTrailing
  info : after.info = before.info
  isPure : after.isPure = (before.isPure || before.key?.any registry.isPure)

theorem calleeName?_markPure (registry : Registry) (e : Expr) :
    (markPure registry e).calleeName? = e.calleeName? := by
  cases e <;> rfl

theorem argumentLabels_markPure (registry : Registry) (e : Expr) :
    (markPure registry e).argumentLabels = e.argumentLabels := by
  cases e <;> rfl

theorem forall₂_isMarked (registry : Registry) (file : SourceFile) :
    List.Forall₂ (IsMarked registry) (CallExpr.survey.ofFile file)
      (CallExpr.survey.ofFile ((pureCalls registry).onFile file)) := by
  have htraces : (pureCalls registry).Traces CallExpr.ofExpr
      (List.Forall₂ (IsMarked registry)) := by
    refine .ofNodes .nil (fun hfirst hrest => List.rel_append hfirst hrest) (fun _ => rfl)
      (fun _ => rfl) (fun _ _ => rfl) (fun _ => rfl) (fun _ e => ?_) ?_
    · cases e <;> rfl
    · intro owner called e
      cases e with
      | call callee arguments hasTrailing isPure info =>
        refine .cons ⟨rfl, rfl, ?_⟩ .nil
        have hkey : ((pureCalls registry).onExpr owner true callee).callKey?
            ((pureCalls registry).onExpr owner false arguments) = callee.callKey? arguments := by
          rw [Expr.callKey?, Expr.callKey?,
            Transform.calleeName?_onExpr (fun _ e => calleeName?_markPure registry e),
            Transform.argumentLabels_onExpr fun _ e => argumentLabels_markPure registry e]
        exact congrArg (isPure || ·.any registry.isPure) hkey
      | _ => exact .nil
  exact htraces.ofFile_onFile file

/-! ## The library -/

/-- That two lists have the same calls up to their parts, but for those made for the library. -/
structure LibraryMatch (before after : List CallExpr) : Prop where
  stems : ∀ found ∈ after, found.IsMade ∨ ∃ origin ∈ before, origin.SameMark found
  survives : Stems (flip CallExpr.SameMark) after before

namespace LibraryMatch

variable {a b c d : List CallExpr}

theorem nil : LibraryMatch [] [] where
  stems _ hfound := absurd hfound List.not_mem_nil
  survives := .nil

theorem append (h : LibraryMatch a b) (h' : LibraryMatch c d) : LibraryMatch (a ++ c) (b ++ d) where
  stems found hfound := by
    obtain hfound | hfound := List.mem_append.mp hfound
    · refine (h.stems found hfound).imp_right fun ⟨origin, horigin, hsame⟩ => ?_
      exact ⟨origin, List.mem_append_left _ horigin, hsame⟩
    · refine (h'.stems found hfound).imp_right fun ⟨origin, horigin, hsame⟩ => ?_
      exact ⟨origin, List.mem_append_right _ horigin, hsame⟩
  survives := Stems.append h.survives h'.survives

theorem singleton {call call' : CallExpr} (h : call.SameMark call') :
    LibraryMatch [call] [call'] where
  stems found hfound := by
    obtain rfl := List.mem_singleton.mp hfound
    exact .inr ⟨call, List.mem_singleton_self call, h⟩
  survives := Stems.singleton h

theorem made {call : CallExpr} (h : call.IsMade) : LibraryMatch [] [call] where
  stems found hfound := by
    obtain rfl := List.mem_singleton.mp hfound
    exact .inl h
  survives := .nil

end LibraryMatch

/-- A reference to a member of the library becomes another one or a call of a method. -/
theorem replaceReference_member (called : Bool) (base : Expr) (n : String) (isLibrary : Bool)
    (style : Option EnumKind) (info : Info) :
    ∃ name isLibrary', replaceReference called (.member base n isLibrary style info) =
        .member base name isLibrary' style info ∨
      replaceReference called (.member base n isLibrary style info) =
        .call (.member base name false style info) (.tuple [] {}) false false
          { span := info.span } := by
  cases isLibrary with
  | false => exact ⟨n, false, .inl rfl⟩
  | true =>
    rw [replaceReference]
    split
    next name _ => exact ⟨name, false, .inl rfl⟩
    next name _ =>
      split
      next => exact ⟨name, false, .inl rfl⟩
      next => exact ⟨name, false, .inr rfl⟩
    next => exact ⟨n, false, .inl rfl⟩

theorem traces_standardLibrary : standardLibrary.Traces CallExpr.ofExpr LibraryMatch where
  nil := .nil
  append := .append
  skip e h := absurd h (by simp [standardLibrary])
  leave s h := absurd h (by simp [standardLibrary])
  expr owner called e _ h := by
    show LibraryMatch _ (CallExpr.survey.ofExpr (replaceReference called _))
    rw [ofExpr_nodes, ofExpr_nodes]
    cases e with
    | call callee arguments hasTrailing isPure info =>
      exact LibraryMatch.append h (.singleton ⟨rfl, rfl, rfl⟩)
    | member base n isLibrary style info =>
      obtain ⟨name, isLibrary', hmember | hcall⟩ := replaceReference_member called
        ((standardLibrary.change owner).value base) n isLibrary style info
      · rw [Expr.mapParts, hmember]
        exact LibraryMatch.append h .nil
      · -- a property that becomes a method is the one place where a call is made
        rw [Expr.mapParts, hcall]
        refine LibraryMatch.append ?_ (.made ⟨⟨_, _, _, _, rfl⟩, rfl, rfl⟩)
        simpa [Expr.parts, Expr.mapParts, ofExpr_nodes, CallExpr.ofExpr] using h
    | name n isLibrary isImplicit info =>
      cases isLibrary <;> exact .nil
    | _ => exact LibraryMatch.append h .nil
  stmt owner found s h := by
    show LibraryMatch found (CallExpr.survey.ofStmts [s])
    rwa [ofStmts_nodes_singleton]
  block found stmts h := h

/-! ## From a changed file back to the file as it was read -/

theorem changed_reporting (registry : Registry) (file : SourceFile) :
    Pipeline.changed registry [.impureSwitchSubjects, .mutableValueTypes] file = file := by
  have hsettles : Transform.Settles {} {} := ⟨fun _ => rfl, fun _ => rfl, fun _ _ => rfl⟩
  have hnothing : ∀ file, Transform.onFile {} file = file :=
    fun file => Transform.onFile_of_settled hsettles (Demand.metFile_trivial file)
  show Transform.onFile {} (Transform.onFile {} file) = file
  rw [hnothing, hnothing]

theorem finished_eq_marked (registry : Registry) (file : SourceFile) :
    finished registry file = standardLibrary.onFile ((pureCalls registry).onFile
      ((callLabelsToParameterNames registry).onFile (beforeNaming registry file))) := by
  rw [finished_eq]
  exact congrArg standardLibrary.onFile (changed_reporting registry _)

/-- What a call that is about to be named is in the end. -/
structure EndsAs (registry : Registry) (reached found : CallExpr) : Prop where
  hasTrailing : found.hasTrailing = reached.hasTrailing
  info : found.info = reached.info
  isPure : found.isPure = (reached.isPure || (reached.namedKey? registry).any registry.isPure)

theorem endsAs_of_steps {registry : Registry} {owner : Option String}
    {reached marked found : CallExpr}
    (hmarks : IsMarked registry (namedCall registry owner reached) marked)
    (hsame : marked.SameMark found) :
    EndsAs registry reached found where
  hasTrailing := by
    rw [hsame.hasTrailing, hmarks.hasTrailing]
    rfl
  info := by
    rw [hsame.info, hmarks.info]
    rfl
  isPure := by
    rw [hsame.isPure, hmarks.isPure, key?_namedCall]
    rfl

section

variable (registry : Registry) (file : SourceFile)

theorem endsAs_of_mem_finished :
    ∀ found ∈ CallExpr.survey.ofFile (finished registry file), found.IsMade ∨
      ∃ reached ∈ CallExpr.survey.ofFile (beforeNaming registry file),
        EndsAs registry reached found := by
  intro found hfound
  rw [finished_eq_marked] at hfound
  refine ((traces_standardLibrary.ofFile_onFile _).stems found hfound).imp_right ?_
  rintro ⟨marked, hmarked, hsame⟩
  obtain ⟨named, hnamed, hmarks⟩ := Stems.of_forall₂ (forall₂_isMarked registry _) marked hmarked
  obtain ⟨reached, hreached, owner, rfl⟩ :=
    Stems.of_forall₂ (forall₂_namedCall registry _) named hnamed
  exact ⟨reached, hreached, endsAs_of_steps hmarks hsame⟩

theorem endsAs_of_mem_beforeNaming :
    ∀ reached ∈ CallExpr.survey.ofFile (beforeNaming registry file),
      ∃ found ∈ CallExpr.survey.ofFile (finished registry file), EndsAs registry reached found := by
  intro reached hreached
  obtain ⟨named, hnamed, owner, rfl⟩ :=
    Stems.of_forall₂ (List.Forall₂.flip (forall₂_namedCall registry _)) reached hreached
  obtain ⟨marked, hmarked, hmarks⟩ :=
    Stems.of_forall₂ (List.Forall₂.flip (forall₂_isMarked registry _)) _ hnamed
  obtain ⟨found, hfound, hsame⟩ := (traces_standardLibrary.ofFile_onFile _).survives marked hmarked
  rw [finished_eq_marked]
  exact ⟨found, hfound, endsAs_of_steps hmarks hsame⟩

end

theorem namedKey?_eq_of_keeps (registry : Registry) {before after : CallExpr}
    (h : before.Keeps after) (hregular : before.IsRegular) :
    after.namedKey? registry = before.namedKey? registry := by
  have hname : after.callee.calleeName? = before.callee.calleeName? := by
    obtain hname | hinit | ⟨name, hname, hanonymous⟩ := h.callee
    · exact hname
    · exact absurd hinit hregular.isNoInitializer
    · rw [hregular.isNamed name hname] at hanonymous
      exact absurd hanonymous (by simp)
  have hbare : after.arguments.bare = before.arguments.bare := by
    obtain hparen | ⟨-, hbare⟩ := h.arguments
    · rw [hregular.isBare] at hparen
      exact absurd hparen (by simp)
    · exact hbare
  exact namedKey?_congr registry before after hname hbare

/-- What is known of the mark of a call in the end, from the call as it was written and as it is
    when it is about to be named: it is there if it was written, or if a function is declared pure
    whose key the call has under the names of the parameters. -/
structure IsMarkedAs (files : List SourceFile) (registry : Registry)
    (written reached found : CallExpr) : Prop where
  keeps : written.Keeps reached
  hasTrailing : found.hasTrailing = written.hasTrailing
  info : found.info = written.info
  isPure : found.isPure = true ↔ written.isPure = true ∨
    ∃ d, Declared files d ∧ d.head.isPure = true ∧ reached.namedKey? registry = some d.key
  key : written.IsRegular → reached.namedKey? registry = written.namedKey? registry

section

variable {files : List SourceFile} {facts : List Fact}

theorem any_isPure_iff_declared (h : LearnedFrom files facts) (key? : Option String) :
    key?.any (Registry.empty.recordAll facts).isPure = true ↔
      ∃ d, Declared files d ∧ d.head.isPure = true ∧ key? = some d.key := by
  cases key? with
  | none => simp
  | some key =>
    rw [Option.any_some, isPure_iff_declared h]
    refine exists_congr fun d => and_congr_right fun _ => and_congr_right fun _ => ?_
    rw [Option.some.injEq, eq_comm]

theorem isMarkedAs_of_endsAs (h : LearnedFrom files facts) {written reached found : CallExpr}
    (hkeeps : written.Keeps reached)
    (hends : EndsAs (Registry.empty.recordAll facts) reached found) :
    IsMarkedAs files (Registry.empty.recordAll facts) written reached found where
  keeps := hkeeps
  hasTrailing := hends.hasTrailing.trans hkeeps.hasTrailing
  info := hends.info.trans hkeeps.info
  isPure := by
    rw [hends.isPure, hkeeps.isPure, Bool.or_eq_true, any_isPure_iff_declared h]
  key := namedKey?_eq_of_keeps _ hkeeps

/-- In a program whose files have all been learned from, each call of a changed file stands for a
    property of the library and is not marked, or is marked as a call of the file as it was read;
    and for each call of that file there is such a call, unless it is lost with its switch. -/
theorem isPure_finished (h : LearnedFrom files facts) (file : SourceFile) :
    (∀ found ∈ CallExpr.survey.ofFile (finished (Registry.empty.recordAll facts) file),
      found.IsMade ∨ ∃ written ∈ CallExpr.survey.ofFile file,
        ∃ reached ∈ CallExpr.survey.ofFile (beforeNaming (Registry.empty.recordAll facts) file),
          IsMarkedAs files (Registry.empty.recordAll facts) written reached found) ∧
    ∀ written ∈ CallExpr.survey.ofFile file,
      IsLost (Registry.empty.recordAll facts) file written ∨
        ∃ reached ∈ CallExpr.survey.ofFile (beforeNaming (Registry.empty.recordAll facts) file),
          ∃ found ∈ CallExpr.survey.ofFile (finished (Registry.empty.recordAll facts) file),
            IsMarkedAs files (Registry.empty.recordAll facts) written reached found := by
  constructor
  -- Back from the end: to the call that was about to be named, and from there to the file as read.
  · intro found hfound
    refine (endsAs_of_mem_finished _ file found hfound).imp_right ?_
    rintro ⟨reached, hreached, hends⟩
    obtain ⟨written, hwritten, hkeeps⟩ := stems_beforeNaming _ file reached hreached
    exact ⟨written, hwritten, reached, hreached, isMarkedAs_of_endsAs h hkeeps hends⟩
  -- And forth on the same way, on which a call may be lost before it is named.
  · intro written hwritten
    refine (survives_beforeNaming _ file written hwritten).imp_right ?_
    rintro ⟨reached, hreached, hkeeps⟩
    obtain ⟨found, hfound, hends⟩ := endsAs_of_mem_beforeNaming _ file reached hreached
    exact ⟨reached, hreached, found, hfound, isMarkedAs_of_endsAs h hkeeps hends⟩

end

/-- A pure function whose label is not the name of its parameter, with a call of it. -/
def pureAreaFile : SourceFile :=
  { path := "area"
    declarations :=
      [.function { areaFunction.head with isPure := true } areaFunction.parameters none none]
    statements := [.expression (.call areaCall.callee areaCall.arguments areaCall.hasTrailing
      areaCall.isPure areaCall.info) none] }

/-- The call has the key of the pure function and is not marked. -/
theorem isPure_finished_pureAreaFile :
    LearnedFrom [pureAreaFile] (Pipeline.collect [] pureAreaFile).2 ∧
      areaCall ∈ CallExpr.survey.ofFile pureAreaFile ∧
      (∃ d, Declared [pureAreaFile] d ∧ d.head.isPure = true ∧ areaCall.key? = some d.key) ∧
      ∃ found ∈ CallExpr.survey.ofFile (finished
          (Registry.empty.recordAll (Pipeline.collect [] pureAreaFile).2) pureAreaFile),
        found.info = areaCall.info ∧ found.isPure = false := by
  have hlearned : LearnedFrom [pureAreaFile] (Pipeline.collect [] pureAreaFile).2 := by
    rw [LearnedFrom, List.flatMap_singleton]
  have hwritten : areaCall ∈ CallExpr.survey.ofFile pureAreaFile := List.mem_singleton_self _
  refine ⟨hlearned, hwritten, ⟨⟨none, { areaFunction.head with isPure := true },
    areaFunction.parameters⟩, ⟨pureAreaFile, List.mem_cons_self, .inl (.here List.mem_cons_self)⟩,
    rfl, by decide⟩, ?_⟩
  obtain ⟨last, hlast, -, hlost⟩ | ⟨reached, -, found, hfound, hmarked⟩ :=
    (isPure_finished hlearned pureAreaFile).2 areaCall hwritten
  · exact absurd (.refl last) (hlost last hlast)
  · refine ⟨found, hfound, hmarked.info, ?_⟩
    rw [Bool.eq_false_iff, ne_eq, hmarked.isPure]
    rintro (hpure | ⟨d, ⟨file, hfile, hd⟩, -, hkey⟩)
    · exact absurd hpure (by decide)
    · have hregular : areaCall.IsRegular := by
        refine ⟨by decide, fun name hname => ?_, rfl⟩
        obtain rfl : "area" = name := Option.some.inj hname
        decide
      obtain rfl := List.mem_singleton.mp hfile
      have hfact : Fact.function d.key d.names ∈ functionsOfFile pureAreaFile :=
        mem_functionsOfFile.mpr ⟨d, hd, Declaration.function_mem_facts.mpr ⟨rfl, rfl⟩⟩
      have hof : d.key = "area(of:)" := by
        obtain hfact | hfact := List.mem_cons.mp hfact
        · exact absurd hfact (by simp)
        · exact (Fact.function.inj (List.mem_singleton.mp hfact)).1
      -- under the names of the parameters the key is `area(shape:)`
      rw [hmarked.key hregular, hof] at hkey
      exact absurd hkey (by decide)

end Pass

end Ferry
