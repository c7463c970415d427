/-
  Ferry.Proofs.Pass.CallOrigin

  The calls of a file on the way to being named.  Passes change what stands inside a call, but a
  call keeps its name, labels, slots and purity (`CallExpr.Keeps`).  Three kinds of calls are less
  certain: `self.init` may become a call of the type, the anonymous parameters of closures get
  names, and parentheses around the arguments of a call are dropped.  The passes before calls are
  named move statements and repeat some, but they make no call of their own, and only the one that
  turns switches into values may drop calls: those in the expressions that later cases assign to.

  That no call of some kind is made is a demand that these passes carry, so the calls can be
  followed back to the file as it was read (`stems_beforeNaming`), and one that they reflect, so the
  calls of the file can be followed forward (`survives_beforeNaming`).
-/
import Ferry.Proofs.Pass.Outliving

namespace Ferry

open Survey
open Pipeline (beforeSwitches beforeNaming collected_eq)

def Expr.isParen : Expr → Bool
  | .paren .. => true
  | _ => false

/-- That a callee has the name it had, unless it is an initializer or an anonymous parameter. -/
def KeepsName (before after : Expr) : Prop :=
  after.calleeName? = before.calleeName? ∨ before.calleeName? = some "init" ∨
    ∃ name, before.calleeName? = some name ∧ (Pass.anonymousIndex? name).isSome = true

/-- That arguments have the labels and slots they had, unless they stand in parentheses. -/
def KeepsArguments (before after : Expr) : Prop :=
  before.isParen = true ∨ after.isParen = false ∧ after.bare = before.bare

/-- That a call is another one with its parts changed. -/
structure CallExpr.Keeps (before after : CallExpr) : Prop where
  callee : KeepsName before.callee after.callee
  arguments : KeepsArguments before.arguments after.arguments
  hasTrailing : after.hasTrailing = before.hasTrailing
  isPure : after.isPure = before.isPure
  info : after.info = before.info

theorem KeepsName.refl (e : Expr) : KeepsName e e := .inl rfl

theorem KeepsName.trans {a b c : Expr} (h : KeepsName a b) (h' : KeepsName b c) :
    KeepsName a c := by
  obtain h | h := h
  · rw [KeepsName, h] at h'
    exact h'
  · exact .inr h

theorem KeepsArguments.refl (e : Expr) : KeepsArguments e e := by
  cases h : e.isParen with
  | true => exact .inl h
  | false => exact .inr ⟨h, rfl⟩

theorem KeepsArguments.trans {a b c : Expr} (h : KeepsArguments a b) (h' : KeepsArguments b c) :
    KeepsArguments a c := by
  obtain h | ⟨hparen, hbare⟩ := h
  · exact .inl h
  · obtain h' | ⟨hparen', hbare'⟩ := h'
    · rw [hparen] at h'
      exact absurd h' (by simp)
    · exact .inr ⟨hparen', hbare'.trans hbare⟩

namespace CallExpr.Keeps

theorem refl (call : CallExpr) : Keeps call call :=
  ⟨.refl _, .refl _, rfl, rfl, rfl⟩

theorem trans {a b c : CallExpr} (h : Keeps a b) (h' : Keeps b c) : Keeps a c :=
  ⟨h.callee.trans h'.callee, h.arguments.trans h'.arguments, h'.hasTrailing.trans h.hasTrailing,
    h'.isPure.trans h.isPure, h'.info.trans h.info⟩

end CallExpr.Keeps

namespace Transform

variable {t : Transform}

/-- That a transform keeps the names and the labels of expressions. -/
def KeepsCalls (t : Transform) : Prop :=
  ∀ called e, KeepsName e (t.expr called e) ∧ KeepsArguments e (t.expr called e)

theorem keepsCalls_of_eq (h : ∀ called e, t.expr called e = e) : t.KeepsCalls := by
  intro called e
  rw [h]
  exact ⟨.refl e, .refl e⟩

theorem KeepsCalls.keepsName_onExpr (h : t.KeepsCalls) (owner : Option String) (called : Bool)
    (e : Expr) : KeepsName e (t.onExpr owner called e) := by
  rw [onExpr_eq_mapParts]
  split
  next =>
    refine KeepsName.trans ?_ (h called (e.mapParts (t.change owner))).1
    cases e with
    | paren inner info => exact h.keepsName_onExpr owner false inner
    | _ => exact .inl rfl
  next => exact .refl e

theorem KeepsCalls.keepsArguments_onExpr (h : t.KeepsCalls) (owner : Option String) (called : Bool)
    (e : Expr) : KeepsArguments e (t.onExpr owner called e) := by
  rw [onExpr_eq_mapParts]
  split
  next =>
    refine KeepsArguments.trans ?_ (h called (e.mapParts (t.change owner))).2
    have hparen : (e.mapParts (t.change owner)).isParen = e.isParen := by cases e <;> rfl
    rw [KeepsArguments, hparen, Expr.bare_mapParts]
    exact KeepsArguments.refl e
  next => exact .refl e

theorem KeepsCalls.keeps (h : t.KeepsCalls) {owner : Option String} {callee arguments : Expr}
    {hasTrailing isPure : Bool} {info : Info} :
    CallExpr.Keeps ⟨callee, arguments, hasTrailing, isPure, info⟩
      ⟨(t.change owner).expr .value true callee, (t.change owner).value arguments,
        hasTrailing, isPure, info⟩ :=
  ⟨h.keepsName_onExpr owner true callee, h.keepsArguments_onExpr owner false arguments,
   rfl, rfl, rfl⟩

end Transform

namespace Pass

/-! ## Passes and single calls -/

theorem keepsCalls_removeParentheses : removeParentheses.KeepsCalls := by
  intro called e
  cases e with
  -- Parentheses are given up, and arguments change one by one.
  | paren inner info =>
    refine ⟨.inl ?_, .inl rfl⟩
    show (unwrapExpr (.paren inner info)).calleeName? = _
    rw [unwrapExpr]
    split <;> rfl
  | tuple elements info =>
    refine ⟨.inl rfl, .inr ⟨rfl, ?_⟩⟩
    show Expr.tuple ((elements.map _).map _) {} = _
    rw [List.map_map]
    rfl
  | shuffle slots info =>
    refine ⟨.inl rfl, .inr ⟨rfl, ?_⟩⟩
    show Expr.shuffle ((slots.map _).map _) {} = _
    rw [List.map_map]
    exact congrArg (Expr.shuffle · {})
      (List.map_congr_left fun slot _ => Slot.mapValues_mapValues ..)
  | _ => exact ⟨.inl rfl, .inr ⟨rfl, rfl⟩⟩

theorem keepsCalls_anonymousRenaming (isOnly : Bool) : (anonymousRenaming isOnly).KeepsCalls := by
  intro called e
  show KeepsName e (renameAnonymous isOnly e) ∧ KeepsArguments e (renameAnonymous isOnly e)
  cases e with
  | name n isLibrary isImplicit info =>
    rw [renameAnonymous]
    split
    next index hindex => exact ⟨.inr (.inr ⟨n, rfl, by rw [hindex]; rfl⟩), .inr ⟨rfl, rfl⟩⟩
    next => exact ⟨.refl _, .refl _⟩
  | _ => exact ⟨.refl _, .refl _⟩

theorem keepsCalls_anonymousParameters : anonymousParameters.KeepsCalls := by
  intro called e
  show KeepsName e (nameParameters e) ∧ KeepsArguments e (nameParameters e)
  obtain h | ⟨body, info, parameters, isOnly, rfl, h⟩ := nameParameters_cases e
  · rw [h]
    exact ⟨.refl e, .refl e⟩
  · rw [h]
    exact ⟨.inl rfl, .inr ⟨rfl, rfl⟩⟩

theorem keepsCalls_capitalizeEnumCases (registry : Registry) :
    (capitalizeEnumCases registry).KeepsCalls := by
  intro called e
  show KeepsName e (styleCase registry e) ∧ KeepsArguments e (styleCase registry e)
  obtain h | ⟨base, n, isLibrary, style, style', info, rfl, h⟩ := styleCase_cases registry e
  · rw [h]
    exact ⟨.refl e, .refl e⟩
  · rw [h]
    exact ⟨.inl rfl, .inr ⟨rfl, rfl⟩⟩

theorem keepsCalls_transform (registry : Registry) {pass : PassId}
    (h : pass ∈ PassId.beforeNaming) : (pass.transform registry).KeepsCalls := by
  cases pass with
  | removeParentheses => exact keepsCalls_removeParentheses
  | anonymousParameters => exact keepsCalls_anonymousParameters
  | capitalizeEnumCases => exact keepsCalls_capitalizeEnumCases registry
  | callLabelsToParameterNames | pureCalls | standardLibrary => exact absurd h (by decide)
  | _ => exact Transform.keepsCalls_of_eq fun _ _ => rfl

theorem keeps_typeName {callee arguments : Expr} {hasTrailing isPure : Bool} {info : Info}
    {name : String} {span : Option Span} (h : isSelfInit callee = true) :
    CallExpr.Keeps ⟨callee, arguments, hasTrailing, isPure, info⟩
      ⟨.typeName name { span }, arguments, hasTrailing, isPure, info⟩ := by
  refine ⟨.inr (.inl ?_), .refl _, rfl, rfl, rfl⟩
  unfold isSelfInit at h
  split at h
  next =>
    rw [Bool.and_eq_true, beq_iff_eq] at h
    rw [h.1]
    rfl
  next => exact absurd h Bool.false_ne_true

/-! ## Calls that are not made -/

def uncalled (Q : CallExpr → Prop) : Demand where
  expr _ _ e := ∀ call ∈ CallExpr.ofExpr e, ¬Q call

theorem metFile_uncalled_iff {Q : CallExpr → Prop} {file : SourceFile} :
    (uncalled Q).MetFile file ↔ ∀ call ∈ CallExpr.survey.ofFile file, ¬Q call := by
  rw [← metFile_demand_iff (fun _ => rfl) rfl]
  refine ⟨fun h => h.mono ?_ ?_ ?_, fun h => h.mono ?_ ?_ ?_⟩
  · exact fun own => own
  · exact fun _ => ⟨List.forall_mem_nil _, List.forall_mem_nil _⟩
  · exact fun own => own
  · exact fun own => own
  · exact fun _ => trivial
  · exact fun own => own

variable {Q : CallExpr → Prop}

theorem expr_uncalled_of_not_isCall {place : Place} {called : Bool} {e : Expr}
    (h : e.isCall = false) : (uncalled Q).expr place called e := by
  cases e with
  | call => exact absurd h Bool.true_eq_false.mp
  | _ => exact List.forall_mem_nil _

theorem expr_uncalled_call {place : Place} {called : Bool} {callee arguments : Expr}
    {hasTrailing isPure : Bool} {info : Info} :
    (uncalled Q).expr place called (.call callee arguments hasTrailing isPure info) ↔
      ¬Q ⟨callee, arguments, hasTrailing, isPure, info⟩ :=
  List.forall_mem_singleton

theorem isTame_uncalled : (uncalled Q).IsTame :=
  ⟨⟨Iff.rfl⟩, fun _ h => expr_uncalled_of_not_isCall h⟩

theorem isSparse_uncalled : (uncalled Q).IsSparse where
  steady := ⟨Iff.rfl⟩
  free := expr_uncalled_of_not_isCall
  level := ⟨Iff.rfl, fun _ => trivial⟩
  other _ := trivial
  receiver _ := trivial
  hoist _ := trivial

/-! ## Back to the file as it was read -/

theorem isKeptBy_uncalled (hQ : ∀ {call call'}, call.Keeps call' → Q call' → Q call) {t : Transform}
    (ht : t.KeepsCalls) : (uncalled Q).IsKeptBy t where
  tame := isTame_uncalled
  block _ := trivial
  expr {place called e} own := by
    cases e with
    | call callee arguments hasTrailing isPure info =>
      exact expr_uncalled_call.mpr (mt (hQ ht.keeps) (expr_uncalled_call.mp own))
    | _ => exact List.forall_mem_nil _
  stmt _ := trivial

theorem carries_uncalled (hQ : ∀ {call call'}, call.Keeps call' → Q call' → Q call)
    (registry : Registry) :
    ∀ pass ∈ PassId.beforeNaming, (pass.transform registry).Carries (uncalled Q) (uncalled Q) := by
  have hkept : ∀ pass ∈ PassId.beforeNaming, (uncalled Q).IsKeptBy (pass.transform registry) :=
    fun _ hpass => isKeptBy_uncalled hQ (keepsCalls_transform registry hpass)
  have hd : (uncalled Q).IsTame := isTame_uncalled
  have hlevel : (uncalled Q).IsLevel := isSparse_uncalled.level
  -- Only where what an initializer makes is returned does a call get another callee.
  have hreturning : ∀ name, (returningSelf name).Carries (uncalled Q) (uncalled Q) := fun name =>
    carries_returningSelf id (fun _ => trivial) (metParts_returnSelf_of hd fun hself own =>
      expr_uncalled_call.mpr (mt (hQ (keeps_typeName hself)) (expr_uncalled_call.mp own)))
        hlevel.block
  simp only [PassId.beforeNaming, PassId.transforming, List.take_succ_cons, List.take_zero,
    List.forall_mem_cons] at hkept ⊢
  obtain ⟨hparentheses, hdefers, hextensions, hinits, hstatics, hanonymous, hguards, hnil, hcases,
    hchecks, hswitches, hbreaks, -⟩ := hkept
  exact ⟨carries_removeParentheses_of hparentheses fun _ => trivial,
    carries_defersToFinally_of hdefers hlevel trivial,
    carries_removeExtensions_of hextensions hlevel fun _ => trivial,
    carries_optionalInitsToFactories_of hinits hreturning fun _ => trivial,
    carries_of_stmt hstatics (fun _ => trivial) (metParts_hoistStmt hlevel trivial),
    carries_anonymousParameters_of hanonymous (fun _ h => h) (fun _ h => h) fun isOnly =>
      carries_anonymousRenaming (isKeptBy_uncalled hQ (keepsCalls_anonymousRenaming isOnly))
        (expr_uncalled_of_not_isCall rfl),
    carries_of_stmt hguards (fun _ => trivial) (metParts_cancelNegation hd),
    carries_of_stmt hnil (fun _ => trivial) (metParts_returnForNil hd),
    carries_of_expr hcases (met_styleCase hd),
    carries_of_stmt hchecks (fun _ => trivial) (metParts_checkCases hd),
    carries_switchesToExpressions_of hswitches fun _ => trivial,
    carries_of_stmt hbreaks (fun _ => trivial) (metParts_dropBreaks hlevel.block),
    List.forall_mem_nil _⟩

theorem Retouches.ofFile_nodes {α : Type} {t : Transform} {f : Stmt → Stmt} (h : Retouches t f)
    (g : Expr → List α) (file : SourceFile) :
    (nodes g).ofFile (t.onFile file) = (nodes g).ofFile file := by
  have htraces : t.Traces g fun before after => after = before :=
    { nil := rfl
      append := fun hleft hright => by rw [hleft, hright]
      skip := fun _ _ => rfl
      leave := fun _ _ => rfl
      expr := fun _ _ e henters => absurd ((h.enters e).symm.trans henters) Bool.false_ne_true
      stmt := fun owner found s hs => by
        rw [h.stmt, ofStmts_nodes_singleton, ofParts_eq, h.parts, ← ofParts_eq, hs]
      block := fun _ _ hlist => by rw [h.block, hlist] }
  exact htraces.ofFile_onFile file

theorem ofFile_nodes_collected {α : Type} (g : Expr → List α) (file : SourceFile) :
    (nodes g).ofFile (Pipeline.collected file) = (nodes g).ofFile file := by
  rw [collected_eq, retouches_classifyEnums.ofFile_nodes, retouches_cleanInheritances.ofFile_nodes]

/-- Each call that is about to be named stems from one of the file as it was read. -/
theorem stems_beforeNaming (registry : Registry) (file : SourceFile) :
    Stems CallExpr.Keeps (CallExpr.survey.ofFile file)
      (CallExpr.survey.ofFile (beforeNaming registry file)) := by
  intro found hfound
  -- If no call of the file were kept as this one, no call after the passes would be, not even this
  -- one.
  by_contra hnone
  have hfile : (uncalled (CallExpr.Keeps · found)).MetFile (Pipeline.collected file) := by
    refine metFile_uncalled_iff.mpr fun call hcall hkeeps => hnone ⟨call, ?_, hkeeps⟩
    rwa [CallExpr.survey, ofFile_nodes_collected] at hcall
  have hchanged : (uncalled (CallExpr.Keeps · found)).MetFile (beforeNaming registry file) :=
    Pipeline.metFile_changed
      (carries_uncalled (fun hkeeps hfound => hkeeps.trans hfound) registry) hfile
  exact metFile_uncalled_iff.mp hchanged found hfound (.refl found)

/-! ## Forward from the file as it was read -/

theorem shows_uncalled (hQ : ∀ {call call'}, call.Keeps call' → Q call → Q call') {t : Transform}
    (ht : t.KeepsCalls) : t.Shows (uncalled Q) where
  expr {place called e} own := by
    cases e with
    | call callee arguments hasTrailing isPure info =>
      exact expr_uncalled_call.mpr (mt (hQ ht.keeps) (expr_uncalled_call.mp own))
    | _ => exact List.forall_mem_nil _
  stmt _ := trivial

theorem reflects_anonymousRenaming {d : Demand} (hd : d.IsSparse) {isOnly : Bool}
    (hown : (anonymousRenaming isOnly).Shows d) : (anonymousRenaming isOnly).Reflects d d d where
  own_expr := hown.expr
  own_stmt := hown.stmt
  expr {place called e} h := by
    obtain ⟨own, parts⟩ := Demand.met_expr_iff.mp h
    refine ⟨?_, parts_renameAnonymous isOnly e ▸ parts⟩
    revert own
    show d.expr place called (renameAnonymous isOnly e) → _
    fun_cases renameAnonymous isOnly e with
    | case1 | case2 => exact fun _ => hd.free rfl
    | case3 => exact id
  skip _ h := h
  descends _ := rfl
  stmt h := h _ (List.mem_singleton_self _)
  block h := h

theorem reflects_anonymousParameters {d : Demand} (hd : d.IsSparse)
    (hown : anonymousParameters.Shows d)
    (hexpr : ∀ {place called e} inBare, d.expr place called e →
      d.expr { place with inBare } called e)
    (hstmt : ∀ {place s} inBare, d.stmt place s → d.stmt { place with inBare } s)
    (hrenaming : ∀ isOnly, (anonymousRenaming isOnly).Shows d) :
    anonymousParameters.Reflects d d d := by
  refine .of_expr hown fun {place called e} h => ?_
  obtain heq | ⟨body, info, parameters, isOnly, rfl, heq⟩ := nameParameters_cases e
  · rw [heq] at h
    exact Demand.met_expr_iff.mp h
  · rw [heq] at h
    have hmade := Demand.metParts_singleton.mp (Demand.met_expr_iff.mp h).2
    -- Its body was in a closure without parameters and is in one with them.
    have hbody : d.Met (place.step (.closure parameters.isEmpty)) (.stmts body) := by
      refine (reflects_anonymousRenaming hd (hrenaming isOnly)).met hd.level.block ?_
      rw [Transform.onFragment_congr (fun _ _ _ => rfl) {} _ _ none]
      exact hmade
    exact ⟨hd.free rfl, Demand.metParts_singleton.mpr (met_closure hexpr hstmt hbody _)⟩

theorem reflects_capitalizeEnumCases {d : Demand} (hd : d.IsSparse) {registry : Registry}
    (hown : (capitalizeEnumCases registry).Shows d) :
    (capitalizeEnumCases registry).Reflects d d d := by
  refine .of_expr hown fun {place called e} h => ?_
  obtain heq | ⟨base, n, isLibrary, style, style', info, rfl, heq⟩ := styleCase_cases registry e
  · rw [heq] at h
    exact Demand.met_expr_iff.mp h
  · rw [heq] at h
    exact ⟨hd.free rfl, (Demand.met_expr_iff.mp h).2⟩

theorem reflects_uncalled (hQ : ∀ {call call'}, call.Keeps call' → Q call → Q call')
    (registry : Registry) :
    ∀ pass ∈ PassId.beforeNaming.take 10,
      (pass.transform registry).Reflects (uncalled Q) (uncalled Q) (uncalled Q) := by
  have hd : (uncalled Q).IsSparse := isSparse_uncalled
  have hshows : ∀ pass ∈ PassId.beforeNaming.take 10,
      (pass.transform registry).Shows (uncalled Q) :=
    fun _ hpass => shows_uncalled hQ (keepsCalls_transform registry (List.mem_of_mem_take hpass))
  -- A call of `self.init` that is returned becomes one of the type and keeps its name.
  have hreturning : ∀ name, (returningSelf name).Reflects (uncalled Q) (uncalled Q) (uncalled Q) :=
    fun name => reflects_returningSelf hd
      (shows_uncalled hQ (Transform.keepsCalls_of_eq fun _ _ => rfl)) fun hself own =>
        expr_uncalled_call.mpr (mt (hQ (keeps_typeName hself)) (expr_uncalled_call.mp own))
  -- The passes one by one, each with its own lemma.
  change ∀ pass ∈ PassId.transforming.take 3 ++ [.optionalInitsToFactories,
    .staticMembersToCompanion, .anonymousParameters, .doubleNegativesInGuards, .returnIfNil,
    .capitalizeEnumCases,
    .isChecksForPayloadCases], _ at hshows ⊢
  simp only [List.forall_mem_append, List.forall_mem_cons] at hshows ⊢
  obtain ⟨hearly, hinits, hstatics, hanonymous, hguards, hnil, hcases, hchecks, -⟩ := hshows
  exact ⟨reflects_early hd registry hearly,
    reflects_optionalInitsToFactories hd.level.block hreturning id hinits.expr hinits.stmt id,
    reflects_staticMembersToCompanion hd hstatics,
    reflects_anonymousParameters hd hanonymous (fun _ h => h) (fun _ h => h) fun isOnly =>
      shows_uncalled hQ (keepsCalls_anonymousRenaming isOnly),
    reflects_doubleNegativesInGuards hd hguards, reflects_returnIfNil hd hnil,
    reflects_capitalizeEnumCases hd hcases, reflects_isChecksForPayloadCases hd hchecks,
    List.forall_mem_nil _⟩

/-- What is not lost without a demand noticing it is kept. -/
theorem exists_keeps {before after : SourceFile} {written : CallExpr}
    (h : (uncalled written.Keeps).MetFile after → (uncalled written.Keeps).MetFile before)
    (hwritten : written ∈ CallExpr.survey.ofFile before) :
    ∃ kept ∈ CallExpr.survey.ofFile after, written.Keeps kept := by
  by_contra hnone
  push Not at hnone
  exact metFile_uncalled_iff.mp (h (metFile_uncalled_iff.mpr hnone)) written
    hwritten (.refl written)

/-- That a call is lost when switches are turned into values. -/
def IsLost (registry : Registry) (file : SourceFile) (written : CallExpr) : Prop :=
  ∃ last ∈ CallExpr.survey.ofFile (beforeSwitches registry file), written.Keeps last ∧
    ∀ kept ∈ CallExpr.survey.ofFile (switchesToExpressions.onFile (beforeSwitches registry file)),
      ¬ last.Keeps kept

/-- Each call of the file as it was read is about to be named in the end, unless it is lost. -/
theorem survives_beforeNaming (registry : Registry) (file : SourceFile) :
    ∀ written ∈ CallExpr.survey.ofFile file, IsLost registry file written ∨
      ∃ reached ∈ CallExpr.survey.ofFile (beforeNaming registry file), written.Keeps reached := by
  intro written hwritten
  have hblock : ∀ {Q} (list : List Stmt), (uncalled Q).block list := fun _ => trivial
  -- Up to the passes on switches every call is kept.
  obtain ⟨last, hlast, hkeeps⟩ : ∃ last ∈ CallExpr.survey.ofFile (beforeSwitches registry file),
      written.Keeps last := by
    refine exists_keeps (Pipeline.metFile_of_changed hblock
      (reflects_uncalled (fun hkeeps hwritten => hwritten.trans hkeeps) registry)) ?_
    rwa [CallExpr.survey, ofFile_nodes_collected]
  -- There a call may be lost; one that is not is kept by the pass after it too.
  by_cases hkept : ∃ kept ∈ CallExpr.survey.ofFile
      (switchesToExpressions.onFile (beforeSwitches registry file)), last.Keeps kept
  · obtain ⟨kept, hkept, hkeeps'⟩ := hkept
    obtain ⟨reached, hreached, hkeeps''⟩ : ∃ reached ∈ CallExpr.survey.ofFile
        (beforeNaming registry file), kept.Keeps reached := by
      refine exists_keeps ((reflects_removeBreaksInSwitches isSparse_uncalled ?_).metFile hblock
        hblock) hkept
      exact shows_uncalled (fun hkeeps hkept => hkept.trans hkeeps)
        (Transform.keepsCalls_of_eq fun _ _ => rfl)
    exact .inr ⟨reached, hreached, (hkeeps.trans hkeeps').trans hkeeps''⟩
  · exact .inl ⟨last, hlast, hkeeps, fun kept hmem hlost => hkept ⟨kept, hmem, hlost⟩⟩

end Pass

end Ferry
