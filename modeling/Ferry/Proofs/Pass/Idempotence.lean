/-
  Ferry.Proofs.Pass.Idempotence

  Passes that have nothing left to do after one run.  What such a pass makes of a node has no place
  in it where the pass would do anything again: not at the node it makes, and not in the parts,
  which it may have moved or set up anew.  Run a second time it changes nothing, and it has nothing
  to report (`onFile_onFile_of_structural`).
-/
import Mathlib.Data.List.Chain
import Ferry.Pass.Pipeline
import Ferry.Proofs.Pass.Settled

namespace Ferry

namespace Pass

/-! ## Closures -/

theorem anonymousIndex?_parameterName (isOnly : Bool) (index : Nat) :
    anonymousIndex? (parameterName isOnly index) = none := by
  cases isOnly with
  | true =>
    show anonymousIndex? "it" = none
    decide
  | false =>
    show anonymousIndex? ("arg" ++ toString index) = none
    rw [anonymousIndex?, String.toList_append]
    rfl

theorem expr_anonymousSurvey_renameAnonymous (isOnly : Bool) (e : Expr) :
    anonymousSurvey.expr (renameAnonymous isOnly e) = [] := by
  fun_cases renameAnonymous isOnly e with
  | case1 n isLibrary isImplicit info index hindex =>
    show (anonymousIndex? (parameterName isOnly index)).toList = []
    rw [anonymousIndex?_parameterName]
    rfl
  | case2 n isLibrary isImplicit info hindex =>
    show (anonymousIndex? n).toList = []
    rw [hindex]
    rfl
  | case3 e he =>
    cases e with
    | name n isLibrary isImplicit info => exact absurd rfl (he n isLibrary isImplicit info)
    | _ => rfl

theorem parts_renameAnonymous (isOnly : Bool) (e : Expr) :
    (renameAnonymous isOnly e).parts = e.parts := by
  fun_cases renameAnonymous isOnly e <;> rfl

theorem isClosure_renameAnonymous (isOnly : Bool) (e : Expr) :
    isClosure (renameAnonymous isOnly e) = isClosure e := by
  fun_cases renameAnonymous isOnly e <;> rfl

theorem isClosure_mapParts (φ : Change) (e : Expr) : isClosure (e.mapParts φ) = isClosure e := by
  cases e <;> rfl

/-- After the renaming nothing is anonymous but in closures inside. -/
theorem ofFragment_anonymousRenaming (isOnly : Bool) (owner : Option String) (place : Place)
    (fragment : Fragment) :
    anonymousSurvey.ofFragment ((anonymousRenaming isOnly).onFragment owner fragment) = [] := by
  induction place, fragment using Fragment.induction generalizing owner with
  | expr place called e ih =>
    rw [Transform.onFragment, Transform.onExpr_eq_mapParts]
    split
    next =>
      refine Survey.ofExpr_eq_nil (fun part hpart => ?_)
        (expr_anonymousSurvey_renameAnonymous isOnly _)
      rw [show (anonymousRenaming isOnly).expr called = renameAnonymous isOnly from rfl,
        parts_renameAnonymous, Expr.parts_mapParts] at hpart
      obtain ⟨origin, horigin, rfl⟩ := List.mem_map.mp hpart
      rw [Transform.onPart_change]
      exact ih origin horigin _
    -- A closure inside is left as it is, and the survey does not enter it either.
    next henters =>
      refine List.eq_nil_iff_forall_not_mem.mpr fun index hindex => ?_
      exact henters (Survey.mem_of_mem_ofExpr hindex).1
  | stmts place list ih =>
    rw [Transform.onFragment, Transform.onStmts_eq]
    refine Survey.ofStmts_eq_nil_iff.mpr fun made hmade => ?_
    obtain ⟨s, hs, hmade⟩ := List.mem_flatMap.mp hmade
    obtain rfl := List.mem_singleton.mp hmade
    refine ⟨rfl, fun part hpart => ?_, rfl⟩
    rw [Transform.onStmt_eq, if_pos (show (anonymousRenaming isOnly).descends s = true from rfl),
      Stmt.parts_mapParts] at hpart
    obtain ⟨origin, horigin, rfl⟩ := List.mem_map.mp hpart
    rw [Transform.onPart_change]
    exact ih s hs origin horigin _

/-- Every closure that needs names for its parameters has them. -/
def named : Demand where
  expr _ _ e := nameParameters e = e

theorem nameParameters_of_not_closure {e : Expr} (h : isClosure e = false) :
    nameParameters e = e := by
  cases e with
  | closure parameters body info => exact absurd h Bool.true_eq_false.mp
  | _ => rfl

theorem carries_anonymousRenaming_named (isOnly : Bool) :
    (anonymousRenaming isOnly).Carries named named := by
  refine .of_stmt named.stmt (fun _ => rfl) ?_ (fun _ h => h) ?_
    (fun h => Demand.met_stmts_iff.mpr ⟨h, trivial⟩) (fun _ _ => trivial)
  · intro place called e henters _ parts
    have hclosure : isClosure e = false := by simpa [anonymousRenaming] using henters
    refine .expr (nameParameters_of_not_closure ?_) ?_
    · exact (isClosure_renameAnonymous isOnly _).trans ((isClosure_mapParts _ e).trans hclosure)
    · rw [show (anonymousRenaming isOnly).expr called = renameAnonymous isOnly from rfl,
        parts_renameAnonymous]
      exact parts
  · intro place s _ parts made hmade
    obtain rfl := List.mem_singleton.mp hmade
    exact ⟨trivial, parts⟩

theorem met_named_anywhere {place other : Place} {fragment : Fragment}
    (h : named.Met place fragment) : named.Met other fragment :=
  h.transport (r := fun _ _ => True) (fun _ _ => trivial) (fun _ h => h) (fun _ h => h) (fun h => h)
    trivial

theorem nameParameters_of_ofStmts {parameters : List ClosureParameter} {body : List Stmt}
    {info : Info} (h : parameters = [] → anonymousSurvey.ofStmts body = []) :
    nameParameters (.closure parameters body info) = .closure parameters body info := by
  cases parameters with
  | nil => rw [nameParameters, h rfl]; rfl
  | cons parameter rest => rfl

theorem met_nameParameters {place : Place} {called : Bool} {e : Expr}
    (h : named.MetParts place e.parts) : named.Met place (.expr called (nameParameters e)) := by
  fun_cases nameParameters e with
  | case1 body info hnone =>
    refine .expr (nameParameters_of_ofStmts fun _ => ?_) h
    exact List.max?_eq_none_iff.mp hnone
  | case2 body info highest hhighest parameters =>
    have hbody := (carries_anonymousRenaming_named (highest == 0)).met
      (Demand.metParts_singleton.mp h)
    rw [Transform.onFragment_congr (fun _ _ _ => rfl) {} _ _ none] at hbody
    -- Either the parameters have names now, or the only one is called `it` and no longer anonymous.
    refine .expr (nameParameters_of_ofStmts fun _ => ?_)
      (Demand.metParts_singleton.mpr (met_named_anywhere hbody))
    exact ofFragment_anonymousRenaming _ none {} (.stmts body)
  | case3 e he =>
    refine .expr ?_ h
    cases e with
    | closure parameters body info =>
      exact nameParameters_of_ofStmts fun hnone => absurd (hnone ▸ rfl) (he body info)
    | _ => rfl

theorem carries_named : anonymousParameters.Carries {} named := by
  refine .of_nodes met_nameParameters ?_
  intro place s parts made hmade
  obtain rfl := List.mem_singleton.mp hmade
  exact ⟨trivial, parts⟩

theorem onFile_onFile_anonymousParameters (file : SourceFile) :
    anonymousParameters.onFile (anonymousParameters.onFile file) =
      anonymousParameters.onFile file := by
  have hsettles : anonymousParameters.Settles named := ⟨fun h => h, fun _ => rfl, fun _ _ => rfl⟩
  exact Transform.onFile_onFile carries_named hsettles file

/-! ## Guards -/

theorem withoutNegation_of_snd {e : Expr} (h : (withoutNegation e).2 = false) :
    withoutNegation e = (e, false) := by
  fun_cases withoutNegation e with
  | case1 | case3 => exact absurd h Bool.true_eq_false.mp
  | case2 | case4 | case5 => rfl

theorem cancelNegation_cases (s : Stmt) :
    cancelNegation s = s ∨ ∃ (e : Expr) (body : _) (otherwise : _) (span : _),
      cancelNegation s = .ifStmt [.test (withoutNegation e.unparenthesized).1] body otherwise
        (!(withoutNegation e.unparenthesized).2) span := by
  fun_cases cancelNegation s with
  | case1 e body otherwise span condition isNegated hcondition =>
    refine .inr ⟨e, body, otherwise, span, ?_⟩
    rw [hcondition]
  | case2 => exact .inl rfl

theorem cancelNegation_cancelNegation (s : Stmt) :
    cancelNegation (cancelNegation s) = cancelNegation s := by
  obtain h | ⟨e, body, otherwise, span, h⟩ := cancelNegation_cases s
  · rw [h, h]
  · rw [h]
    cases hnegated : (withoutNegation e.unparenthesized).2 with
    | true => rfl
    | false =>
      have hkept := withoutNegation_of_snd hnegated
      rw [hkept, Bool.not_false, cancelNegation, Expr.unparenthesized_unparenthesized, hkept]
      rfl

theorem returnForNil_cases (s : Stmt) :
    returnForNil s = s ∨ ∃ value span, returnForNil s = .expression value span := by
  fun_cases returnForNil s with
  | case1 condition inner span checked => exact .inr ⟨_, _, rfl⟩
  | case2 | case3 => exact .inl rfl

theorem returnForNil_returnForNil (s : Stmt) : returnForNil (returnForNil s) = returnForNil s := by
  obtain h | ⟨value, span, h⟩ := returnForNil_cases s
  · rw [h, h]
  · rw [h]
    rfl

/-! ## Cases of enumerations -/

theorem styleCase_styleCase (registry : Registry) (e : Expr) :
    styleCase registry (styleCase registry e) = styleCase registry e := by
  fun_cases styleCase registry e with
  | case1 base n isLibrary info enum henum hcase =>
    cases hkind : registry.enumKind? enum with
    | none => simp [styleCase, henum, hkind]
    | some kind => rfl
  | case2 base n isLibrary info enum henum hcase => simp [styleCase, henum, hcase]
  | case3 base n isLibrary info henum => simp [styleCase, henum]
  | case4 e he =>
    unfold styleCase
    split
    next base n isLibrary info => exact absurd rfl (he base n isLibrary info)
    next => rfl

theorem parts_styleCase (registry : Registry) (e : Expr) :
    (styleCase registry e).parts = e.parts := by
  obtain h | ⟨base, n, isLibrary, style, style', info, rfl, h⟩ := styleCase_cases registry e
  · rw [h]
  · rw [h]
    rfl

theorem checkCase_cases (subject e : Expr) :
    checkCase subject e = e ∨ ∃ lhs op rhs info, checkCase subject e = .binary lhs op rhs info := by
  fun_cases checkCase subject e with
  | case1 => exact .inr ⟨_, _, _, _, rfl⟩
  | case2 => exact .inl rfl

theorem checkCase_checkCase (subject e : Expr) :
    checkCase subject (checkCase subject e) = checkCase subject e := by
  obtain h | ⟨lhs, op, rhs, info, h⟩ := checkCase_cases subject e
  · rw [h, h]
  · rw [h]
    rfl

theorem checkCases_checkCases (s : Stmt) : checkCases (checkCases s) = checkCases s := by
  cases s with
  | switchStmt subject cases target span =>
    simp only [checkCases, List.map_map]
    refine congrArg (Stmt.switchStmt subject · target span) (List.map_congr_left fun c _ => ?_)
    simp only [Function.comp_apply, List.map_map]
    refine congrArg (SwitchCase.mk · c.body c.span) (List.map_congr_left fun e _ => ?_)
    exact checkCase_checkCase subject e
  | _ => rfl

/-! ## Switches -/

/-- Whether two statements in a row are a declaration and a `switch` that it is joined with. -/
def isJoined : Stmt → Stmt → Bool
  | .declare item, next => joins item next
  | _, _ => false

/-- Every `switch` that can yield a value does, and stands with the declaration it is for. -/
def valued : Demand where
  stmt _ s := toValue s = s
  block list := list.IsChain fun s next => isJoined s next = false

theorem toValue_cases (s : Stmt) :
    toValue s = s ∨ ∃ subject cases target span,
      toValue s = .switchStmt subject cases (some target) span := by
  fun_cases toValue s with
  | case1 => exact .inr ⟨_, _, _, _, rfl⟩
  | case2 | case3 | case4 => exact .inl rfl

theorem toValue_of_target (subject : Expr) (cases : List SwitchCase) (target : SwitchTarget)
    (span : Option Span) :
    toValue (.switchStmt subject cases (some target) span) =
      .switchStmt subject cases (some target) span := by
  cases cases <;> rfl

theorem toValue_toValue (s : Stmt) : toValue (toValue s) = toValue s := by
  obtain h | ⟨subject, cases, target, span, h⟩ := toValue_cases s
  · rw [h, h]
  · rw [h, toValue_of_target]

theorem isJoined_yielded {s next : Stmt} (h : isJoined s next = false) :
    isJoined s (yielded next) = false := by
  have hvalue : ∀ value span, isJoined s (.expression value span) = false := by
    intro value span
    cases s <;> rfl
  fun_cases yielded next with
  | case1 e span => exact hvalue e span
  | case2 lhs rhs span => exact hvalue rhs span
  | case3 => exact h

theorem isChain_yieldLast {c : SwitchCase} (h : valued.block c.body) :
    valued.block (yieldLast c).body := by
  obtain hnil | ⟨init, last, hbody⟩ := List.eq_nil_or_concat' c.body
  · rw [yieldLast, hnil]
    exact .nil
  · rw [hbody] at h
    obtain ⟨hinit, -, hlast⟩ := List.isChain_append.mp h
    rw [yieldLast, hbody, List.dropLast_concat, List.getLast?_concat]
    refine List.isChain_append.mpr ⟨hinit, .singleton _, ?_⟩
    rintro s hs next hnext
    obtain rfl := Option.some.inj hnext
    exact isJoined_yielded (hlast s hs last rfl)

theorem head?_joinDeclarations {list : List Stmt} {s : Stmt}
    (h : s ∈ (joinDeclarations list).head?) :
    list.head? = some s ∨ ∃ subject cases item span,
      s = .switchStmt subject cases (some (.declared item)) span := by
  revert h
  fun_cases joinDeclarations list with
  | case1 item next rest hjoins =>
    intro h
    obtain ⟨subject, cases, span, heq⟩ := asInitializer_of_joins hjoins
    exact .inr ⟨subject, cases, item, span, (Option.some.inj h).symm.trans heq⟩
  | case2 | case3 => exact .inl
  | case4 => exact fun h => absurd h (Option.not_mem_none s)

theorem isJoined_declared (s : Stmt) (subject : Expr) (cases : List SwitchCase) (item : Variable)
    (span : Option Span) :
    isJoined s (.switchStmt subject cases (some (.declared item)) span) = false := by
  cases s <;> rfl

theorem isChain_joinDeclarations (list : List Stmt) : valued.block (joinDeclarations list) := by
  fun_induction joinDeclarations list with
  | case1 item next rest hjoins ih =>
    refine List.isChain_cons.mpr ⟨fun other _ => ?_, ih⟩
    obtain ⟨subject, cases, span, heq⟩ := asInitializer_of_joins hjoins
    rw [heq]
    rfl
  | case2 item next rest hjoins ih =>
    refine List.isChain_cons.mpr ⟨fun other hother => ?_, ih⟩
    obtain hnext | ⟨subject, cases, declared, span, rfl⟩ := head?_joinDeclarations hother
    · obtain rfl := Option.some.inj hnext
      exact Bool.eq_false_iff.mpr hjoins
    · exact isJoined_declared _ subject cases declared span
  | case3 s rest hs ih =>
    refine List.isChain_cons.mpr ⟨fun other hother => ?_, ih⟩
    cases s with
    | declare item =>
      -- A declaration that is not looked at together with what follows is the last statement.
      cases rest with
      | nil => exact absurd hother (Option.not_mem_none other)
      | cons next rest => exact absurd rfl (hs item next rest rfl)
    | _ => rfl
  | case4 => exact .nil

theorem joinDeclarations_of_isChain {list : List Stmt} (h : valued.block list) :
    joinDeclarations list = list := by
  fun_induction joinDeclarations list with
  | case1 item next rest hjoins ih =>
    have hnot : joins item next = false := (List.isChain_cons_cons.mp h).1
    exact absurd hjoins (Bool.eq_false_iff.mp hnot)
  | case2 item next rest hjoins ih => rw [ih (List.isChain_cons_cons.mp h).2]
  | case3 s rest hs ih => rw [ih (List.isChain_cons.mp h).2]
  | case4 => rfl

theorem onFile_onFile_switchesToExpressions (file : SourceFile) :
    switchesToExpressions.onFile (switchesToExpressions.onFile file) =
      switchesToExpressions.onFile file := by
  have hcarries : switchesToExpressions.Carries {} valued := by
    refine .of_shallow (fun _ => rfl) (fun _ => rfl) Demand.isShallow_trivial
      (fun _ parts => .expr trivial parts) ?_ ?_ (fun _ _ => .singleton _)
    · intro place s _ parts made hmade
      obtain rfl := List.mem_singleton.mp hmade
      exact ⟨toValue_toValue s, metParts_toValue rfl isChain_yieldLast parts⟩
    · intro place list hlist
      refine Demand.met_stmts_iff.mpr ⟨?_, isChain_joinDeclarations list⟩
      exact metStmt_joinDeclarations (fun _ => toValue_of_target _ _ _ _) hlist
  have hsettles : switchesToExpressions.Settles valued :=
    ⟨fun _ => rfl, fun h => congrArg (fun s => [s]) h, fun _ h => joinDeclarations_of_isChain h⟩
  exact Transform.onFile_onFile hcarries hsettles file

/-! ## Calls and references -/

theorem markPure_markPure (registry : Registry) (e : Expr) :
    markPure registry (markPure registry e) = markPure registry e := by
  cases e with
  | call callee arguments hasTrailing isPure info => simp [markPure]
  | _ => rfl

theorem parts_markPure (registry : Registry) (e : Expr) :
    (markPure registry e).parts = e.parts := by
  cases e <;> rfl

def isLibraryReference : Expr → Bool
  | .name _ isLibrary _ _ | .member _ _ isLibrary _ _ => isLibrary
  | _ => false

/-- Nothing refers to the library of the source language. -/
def translated : Demand where
  expr _ _ e := isLibraryReference e = false

theorem replaceReference_of_translated {called : Bool} {e : Expr}
    (h : isLibraryReference e = false) : replaceReference called e = e := by
  fun_cases replaceReference called e with
  | case6 e hmember hname => rfl
  | _ => exact absurd h Bool.true_eq_false.mp

theorem met_replaceReference {place : Place} {called : Bool} {e : Expr}
    (h : translated.MetParts place e.parts) :
    translated.Met place (.expr called (replaceReference called e)) := by
  fun_cases replaceReference called e with
  | case1 base n style info name hname | case2 base n style info name hname =>
    exact .expr rfl h
  -- A property that becomes a method: the call, the member and its empty arguments are new nodes.
  | case3 base n style info name hname hcalled =>
    refine .expr rfl (Demand.metParts_cons.mpr ⟨.expr rfl ?_, ?_⟩)
    · exact Demand.metParts_value.mpr h
    · exact Demand.metParts_singleton.mpr (.expr rfl Demand.metParts_nil)
  | case4 base n style info hname => exact .expr rfl h
  | case5 n isImplicit info => exact .expr rfl h
  | case6 e hmember hname =>
    refine .expr ?_ h
    show isLibraryReference e = false
    -- What is left was no reference of the library.
    fun_cases isLibraryReference e with
    | case1 n isLibrary isImplicit info =>
      exact Bool.eq_false_iff.mpr fun hlibrary => hname n isImplicit info (hlibrary ▸ rfl)
    | case2 base n isLibrary style info =>
      exact Bool.eq_false_iff.mpr fun hlibrary => hmember base n style info (hlibrary ▸ rfl)
    | case3 => rfl

theorem carries_translated : standardLibrary.Carries {} translated := by
  refine .of_nodes met_replaceReference ?_
  intro place s parts made hmade
  obtain rfl := List.mem_singleton.mp hmade
  exact ⟨trivial, parts⟩

theorem onFile_onFile_standardLibrary (file : SourceFile) :
    standardLibrary.onFile (standardLibrary.onFile file) = standardLibrary.onFile file := by
  have hsettles : standardLibrary.Settles translated :=
    ⟨replaceReference_of_translated, fun _ => rfl, fun _ _ => rfl⟩
  exact Transform.onFile_onFile carries_translated hsettles file

/-- What has been translated is not reported. -/
theorem ofFile_unknownReferences_onFile (file : SourceFile) :
    unknownReferences.ofFile (standardLibrary.onFile file) = [] := by
  have htranslated := carries_translated.metFile (Demand.metFile_trivial file)
  refine Survey.ofFile_eq_nil ?_ (fun _ => ⟨rfl, rfl⟩) htranslated
  intro place called e h
  cases e with
  | name n isLibrary isImplicit info =>
    obtain rfl : isLibrary = false := h
    rfl
  | member base n isLibrary style info =>
    obtain rfl : isLibrary = false := h
    rfl
  | _ => rfl

end Pass

/-! ## Running a pass twice -/

/-- Passes that only look at the shape of a file or at single references, and leave nothing of what
they look for. -/
def PassId.structural : List PassId :=
  [removeParentheses, defersToFinally, removeExtensions, optionalInitsToFactories,
   staticMembersToCompanion, anonymousParameters, doubleNegativesInGuards, returnIfNil,
   capitalizeEnumCases, isChecksForPayloadCases, switchesToExpressions, pureCalls, standardLibrary]

open Pass in
theorem onFile_onFile_of_structural {pass : PassId} (hpass : pass ∈ PassId.structural)
    (registry : Registry) (file : SourceFile) :
    let once := (pass.transform registry).onFile file
    (pass.transform registry).onFile once = once ∧ pass.report once = [] := by
  simp only [PassId.structural, List.mem_cons, List.not_mem_nil, or_false] at hpass
  rcases hpass with rfl | rfl | rfl | rfl | rfl | rfl | rfl | rfl | rfl | rfl | rfl | rfl | rfl
  · exact ⟨onFile_onFile_removeParentheses file, rfl⟩
  · exact ⟨onFile_onFile_defersToFinally file, rfl⟩
  · exact ⟨onFile_onFile_removeExtensions file, rfl⟩
  · exact ⟨onFile_onFile_optionalInitsToFactories file, rfl⟩
  · exact ⟨onFile_onFile_staticMembersToCompanion file, rfl⟩
  · exact ⟨onFile_onFile_anonymousParameters file, rfl⟩
  · exact ⟨onFile_onFile_of_stmt cancelNegation_cancelNegation (metParts_cancelNegation ·.tame)
      file, rfl⟩
  · exact ⟨onFile_onFile_of_stmt returnForNil_returnForNil (metParts_returnForNil ·.tame) file, rfl⟩
  · exact ⟨onFile_onFile_of_expr (styleCase_styleCase registry) (parts_styleCase registry)
      file, rfl⟩
  · exact ⟨onFile_onFile_of_stmt checkCases_checkCases (metParts_checkCases ·.tame) file, rfl⟩
  · exact ⟨onFile_onFile_switchesToExpressions file, rfl⟩
  · exact ⟨onFile_onFile_of_expr (markPure_markPure registry) (parts_markPure registry) file, rfl⟩
  · exact ⟨onFile_onFile_standardLibrary file, ofFile_unknownReferences_onFile file⟩

/-- A file with a library reference that has no counterpart. -/
def countedFile : SourceFile where
  path := "counted"
  statements :=
    [.expression (.member (.member (.name "xs" false false {}) "first" true none {}) "shuffled" true
      none {}) none]

/-- The reference is reported once, and not again. -/
theorem onFile_onFile_countedFile :
    PassId.standardLibrary ∈ PassId.structural ∧
      (PassId.standardLibrary.report countedFile).length = 1 ∧
      let t := PassId.standardLibrary.transform {}
      t.onFile (t.onFile countedFile) = t.onFile countedFile ∧
        PassId.standardLibrary.report (t.onFile countedFile) = [] :=
  ⟨by decide, by decide, onFile_onFile_of_structural (by decide) {} countedFile⟩

end Ferry
