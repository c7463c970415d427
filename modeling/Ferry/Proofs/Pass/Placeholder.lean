/-
  Ferry.Proofs.Pass.Placeholder

  Error nodes under the passes.  The passes move parts about, rename them and put them in other
  nodes; with two exceptions each pass leaves as many error nodes as it found.  A check for a case
  with values copies the subject of its `switch`, and a `switch` that yields a value keeps only the
  first of the left sides that it assigned to.  Both are counted at the statements where they happen
  (`Transform.Balances`), so the error nodes after all passes are known (`placeholders_finished`).
-/
import Ferry.Proofs.Pass.Carried
import Ferry.Proofs.Pass.SwitchRestoration
import Ferry.Proofs.Traverse.ErrorCount

namespace Ferry

/-! ## What is lost and what is gained -/

namespace Transform

variable {t : Transform}

/-- What is counted at the statements of a tree, once their parts have been changed. -/
def counting (t : Transform) (count : Stmt → Nat) : Survey Unit where
  before s := List.replicate (count (s.mapParts (t.change none))) ()
  paired := true

def countIn (t : Transform) (count : Stmt → Nat) (file : SourceFile) : Nat :=
  ((t.counting count).ofFile file).length

theorem partErrors_balance {S S' : Survey Unit} {owner : Option String} {parts : List Part}
    (h : ∀ part ∈ parts,
      (t.onFragment (part.1.owner owner) part.2).errors 0 + (S.ofFragment part.2).length =
        part.2.errors 0 + (S'.ofFragment part.2).length) :
    partErrors (parts.map (t.change owner).onPart) 0 +
        (parts.map fun part => (S.ofFragment part.2).length).sum =
      partErrors parts 0 + (parts.map fun part => (S'.ofFragment part.2).length).sum := by
  rw [partErrors, partErrors, List.map_map, ← List.sum_map_add, ← List.sum_map_add]
  refine congrArg List.sum (List.map_congr_left fun part hpart => ?_)
  rw [Function.comp_apply, onPart_change]
  exact h part hpart

/-- That a transform loses some error nodes and gains others, both counted at statements. -/
def Balances (t : Transform) (lost gained : Stmt → Nat) : Prop :=
  ∀ owner fragment,
    (t.onFragment owner fragment).errors 0 + ((t.counting lost).ofFragment fragment).length =
      fragment.errors 0 + ((t.counting gained).ofFragment fragment).length

namespace Balances

variable {lost gained : Stmt → Nat}

theorem of_stmts (ht : t.KeepsExprs) (howner : ∀ owner owner' s, t.stmt owner s = t.stmt owner' s)
    (hstmt : ∀ owner s, stmtErrors (t.stmt owner s) 0 + lost s = s.errors 0 + gained s)
    (hblock : ∀ list, stmtErrors (t.block list) 0 = stmtErrors list 0) :
    t.Balances lost gained := by
  suffices h : ∀ (_ : Place) fragment owner, (t.onFragment owner fragment).errors 0 +
      ((t.counting lost).ofFragment fragment).length =
        fragment.errors 0 + ((t.counting gained).ofFragment fragment).length from
    fun owner fragment => h {} fragment owner
  intro place fragment owner
  induction place, fragment using Fragment.induction generalizing owner with
  | expr place called e ih =>
    have hown : (e.mapParts (t.change owner)).ownErrors 0 = e.ownErrors 0 := by cases e <;> rfl
    have hparts := partErrors_balance fun part hpart =>
      ih part (e.seen_subset hpart) (part.1.owner owner)
    have hlost := Survey.length_ofExpr (s := t.counting lost) rfl e
    have hgained := Survey.length_ofExpr (s := t.counting gained) rfl e
    show (t.onExpr owner called e).errors 0 + (Survey.ofExpr _ e).length =
      e.errors 0 + (Survey.ofExpr _ e).length
    rw [ht.onExpr_eq, Expr.errors_eq, Expr.errors_eq, hown, Expr.seen_mapParts, hlost, hgained]
    simp only [List.length_nil]
    omega
  | stmts place list ih =>
    have hlost := Survey.length_ofStmts (s := t.counting lost) rfl list
    have hgained := Survey.length_ofStmts (s := t.counting gained) rfl list
    show stmtErrors (t.onStmts owner list) 0 + (Survey.ofStmts _ list).length =
      stmtErrors list 0 + (Survey.ofStmts _ list).length
    rw [ht.onStmts_eq, hblock, stmtErrors_flatMap, stmtErrors_eq_sum, hlost, hgained,
      ← List.sum_map_add, ← List.sum_map_add]
    refine congrArg List.sum (List.map_congr_left fun s hs => ?_)
    have hchange : s.mapParts (t.change none) = s.mapParts (t.change owner) :=
      Stmt.mapParts_congr fun part _ => by
        rw [onPart_change, onPart_change, onFragment_congr howner {} part.2]
    have hown : (s.mapParts (t.change owner)).ownErrors = s.ownErrors := by cases s <;> rfl
    have hparts := partErrors_balance fun part hpart => ih s hs part hpart (part.1.owner owner)
    have hstep := hstmt owner (s.mapParts (t.change owner))
    rw [Stmt.errors_eq, hown, Stmt.parts_mapParts] at hstep
    rw [Stmt.errors_eq]
    simp only [hchange, List.length_replicate]
    omega

theorem file (h : t.Balances lost gained) (file : SourceFile) :
    (t.onFile file).placeholders.length + t.countIn lost file =
      file.placeholders.length + t.countIn gained file := by
  have hsum (S : Survey Unit) (list : List Stmt) :
      (S.ofStmts list).length = (list.map fun s => (S.ofStmts [s]).length).sum := by
    simp [Survey.ofStmts_eq, List.length_flatMap]
  have hdeclarations : stmtErrors (file.declarations.flatMap fun s => t.onStmts none [s]) 0 +
      ((t.counting lost).ofStmts file.declarations).length =
        stmtErrors file.declarations 0 +
        ((t.counting gained).ofStmts file.declarations).length := by
    rw [stmtErrors_flatMap, stmtErrors_eq_sum, hsum, hsum, ← List.sum_map_add, ← List.sum_map_add]
    exact congrArg List.sum (List.map_congr_left fun s _ => h none (.stmts [s]))
  have hstatements : stmtErrors (t.onStmts none file.statements) 0 +
      ((t.counting lost).ofStmts file.statements).length =
        stmtErrors file.statements 0 + ((t.counting gained).ofStmts file.statements).length :=
    h none (.stmts file.statements)
  rw [length_placeholders, length_placeholders, countIn, countIn, Survey.ofFile, Survey.ofFile,
    List.length_append, List.length_append, onFile]
  dsimp only
  omega

end Balances

end Transform

/-! ## Passes that lose and gain nothing -/

/-- That a transform leaves as many error nodes as it found. -/
def Transform.KeepsErrors (t : Transform) : Prop :=
  ∀ owner fragment, (t.onFragment owner fragment).errors 0 = fragment.errors 0

namespace Transform.KeepsErrors

variable {t : Transform}

theorem of_steps (hexpr : ∀ called e, (t.expr called e).errors 0 = e.errors 0)
    (hstmt : ∀ owner s, stmtErrors (t.stmt owner s) 0 = s.errors 0)
    (hblock : ∀ list, stmtErrors (t.block list) 0 = stmtErrors list 0) : t.KeepsErrors := by
  intro owner fragment
  refine errors_onFragment (fun _ _ => rfl) (fun _ _ => rfl) (fun called e φ hparts => ?_) hstmt
    hblock {} fragment owner
  rw [hexpr, Expr.errors_mapParts hparts rfl]

theorem stmts (h : t.KeepsErrors) (owner : Option String) (list : List Stmt) :
    stmtErrors (t.onStmts owner list) 0 = stmtErrors list 0 :=
  h owner (.stmts list)

theorem balances (h : t.KeepsErrors) (count : Stmt → Nat) : t.Balances count count :=
  fun owner fragment => congrArg (· + _) (h owner fragment)

theorem file (h : t.KeepsErrors) (file : SourceFile) :
    (t.onFile file).placeholders.length = file.placeholders.length :=
  Nat.add_right_cancel ((h.balances fun _ => 0).file file)

theorem of_expr {f : Bool → Expr → Expr} (h : ∀ called e, (f called e).errors 0 = e.errors 0) :
    KeepsErrors { expr := f } :=
  of_steps h (fun _ _ => rfl) fun _ => rfl

theorem of_stmt {f : Option String → Stmt → List Stmt}
    (h : ∀ owner s, stmtErrors (f owner s) 0 = s.errors 0) : KeepsErrors { stmt := f } :=
  of_steps (fun _ _ => rfl) h fun _ => rfl

end Transform.KeepsErrors

@[simp] theorem Expr.errors_unparenthesized (e : Expr) (load : String → Nat) :
    e.unparenthesized.errors load = e.errors load := by
  fun_induction Expr.unparenthesized e <;> simp_all

theorem Stmt.errors_congr {s t : Stmt} (hown : t.ownErrors = s.ownErrors)
    (hparts : t.parts = s.parts) : t.errors 0 = s.errors 0 := by
  rw [errors_eq, errors_eq, hown, hparts]

namespace Pass

open Transform (KeepsErrors)

theorem keepsErrors_cleanInheritances : cleanInheritances.KeepsErrors := by
  refine .of_steps (fun _ _ => rfl) (fun owner s => ?_) fun _ => rfl
  cases s <;> exact Stmt.errors_congr rfl rfl

theorem keepsErrors_classifyEnums : classifyEnums.KeepsErrors := by
  refine .of_steps (fun _ _ => rfl) (fun owner s => ?_) fun _ => rfl
  cases s <;> exact Stmt.errors_congr rfl rfl

theorem keepsErrors_removeParentheses : removeParentheses.KeepsErrors := by
  refine .of_steps (fun called e => ?_) (fun owner s => ?_) fun _ => rfl
  · show (unwrapExpr e).errors 0 = e.errors 0
    cases e with
    | paren inner info =>
      rw [unwrapExpr]
      split <;> simp
    | tuple | shuffle => simp [unwrapExpr, Function.comp_def]
    | _ => rfl
  · show (unwrapStmt s).errors 0 = s.errors 0
    have hcondition (c : Condition) : partErrors (unwrapCondition c).parts 0 =
        partErrors c.parts 0 := by
      cases c <;> simp [unwrapCondition, Condition.parts]
    rw [Stmt.errors_eq, Stmt.errors_eq]
    fun_cases unwrapStmt s <;>
      simp [Stmt.parts, hcondition, Function.comp_def, Option.toList_map]

theorem keepsErrors_defersToFinally : defersToFinally.KeepsErrors := by
  refine .of_steps (fun _ _ => rfl) (fun _ _ => rfl) fun list => ?_
  show stmtErrors (wrapDefers list) 0 = _
  fun_induction wrapDefers list with
  | case1 => rfl
  | case2 body span rest hrest =>
    rw [List.isEmpty_iff.mp hrest, ← Stmt.errors, Stmt.errors_eq]
    simp [Stmt.parts]
  | case3 body span rest hrest ih =>
    rw [← Stmt.errors, stmtErrors_cons, Stmt.errors_eq, Stmt.errors_eq]
    simp [Stmt.parts, ih, Nat.add_comm]
  | case4 s rest hs ih => rw [stmtErrors_cons, stmtErrors_cons, ih]

theorem keepsErrors_removeExtensions : removeExtensions.KeepsErrors := by
  refine .of_stmt fun owner s => ?_
  fun_cases spreadExtension s with
  | case1 extended inherits members span =>
    have hmember (member : Stmt) : (withReceiver extended member).errors 0 = member.errors 0 :=
      Stmt.errors_congr (by cases member <;> rfl) (parts_withReceiver extended member)
    rw [Stmt.errors_eq, stmtErrors_eq_sum]
    simp [Stmt.parts, Function.comp_def, hmember, stmtErrors_eq_sum]
  | case2 => rfl

theorem errors_of_referencedName {e : Expr} {name : String} (h : e.referencedName? = some name) :
    e.errors 0 = 0 := by
  rw [← Expr.errors_unparenthesized]
  unfold Expr.referencedName? at h
  split at h <;> simp_all

theorem errors_of_isSelf {e : Expr} (h : isSelf e = true) : e.errors 0 = 0 :=
  errors_of_referencedName (beq_iff_eq.mp h)

theorem keepsErrors_returningSelf (owner : String) : (returningSelf owner).KeepsErrors := by
  refine .of_steps (fun _ _ => rfl) (fun _ s => ?_) fun _ => rfl
  show (returnSelf owner s).errors 0 = s.errors 0
  fun_cases returnSelf owner s with
  | case1 lhs rhs span hself => simp [Stmt.errors_eq, Stmt.parts, errors_of_isSelf hself]
  | case3 callee arguments hasTrailing isPure info span hself =>
    have hcallee : callee.errors 0 = 0 := by
      unfold isSelfInit at hself
      split at hself <;> simp_all [errors_of_isSelf]
    simp [Stmt.errors_eq, Stmt.parts, hcallee]
  | _ => rfl

theorem keepsErrors_optionalInitsToFactories : optionalInitsToFactories.KeepsErrors := by
  refine .of_stmt fun owner s => ?_
  show (toFactory owner s).errors 0 = s.errors 0
  fun_cases toFactory owner s with
  | case1 head parameters body span owner =>
    simp [Stmt.errors_eq, Stmt.parts, (keepsErrors_returningSelf owner).stmts]
  | _ => rfl

theorem errors_hoistStatics (members : List Stmt) :
    stmtErrors (hoistStatics members) 0 = stmtErrors members 0 := by
  have hcompanion (list : List Stmt) (span : Option Span) :
      (Stmt.companion list span).errors 0 = stmtErrors list 0 := by
    rw [Stmt.errors_eq]
    simp [Stmt.parts]
  have hextend (statics rest : List Stmt) (h : rest.any isCompanion = true) :
      stmtErrors (extendCompanion statics rest) 0 = stmtErrors statics 0 + stmtErrors rest 0 := by
    fun_induction extendCompanion statics rest with
    | case1 => cases h
    | case2 =>
      simp only [stmtErrors_cons, hcompanion, stmtErrors_append]
      omega
    | case3 s rest hs ih =>
      have hrest : rest.any isCompanion = true := by
        cases s with
        | companion members span => exact absurd rfl (hs members span)
        | _ => exact h
      rw [stmtErrors_cons, stmtErrors_cons, ih hrest]
      omega
  have hsplit : stmtErrors members 0 = stmtErrors (members.filter Stmt.isStatic) 0 +
      stmtErrors (members.filter (!·.isStatic)) 0 := by
    induction members with
    | nil => rfl
    | cons s rest ih => cases hs : s.isStatic <;> simp [stmtErrors_cons, hs, ih] <;> omega
  rw [hsplit, hoistStatics]
  split
  next hnone => simp [List.isEmpty_iff.mp hnone]
  next =>
    split
    next hany => exact hextend _ _ hany
    next => rw [stmtErrors_cons, hcompanion]

theorem keepsErrors_staticMembersToCompanion : staticMembersToCompanion.KeepsErrors := by
  refine .of_stmt fun owner s => ?_
  show (hoistStmt s).errors 0 = s.errors 0
  rw [Stmt.errors_eq, Stmt.errors_eq]
  fun_cases hoistStmt s <;> simp [Stmt.parts, errors_hoistStatics]

theorem keepsErrors_anonymousParameters : anonymousParameters.KeepsErrors := by
  have hrenaming (isOnly : Bool) : (anonymousRenaming isOnly).KeepsErrors := by
    refine .of_steps (fun called e => ?_) (fun _ _ => rfl) fun _ => rfl
    show (renameAnonymous isOnly e).errors 0 = e.errors 0
    fun_cases renameAnonymous isOnly e <;> simp
  refine .of_expr fun called e => ?_
  obtain heq | ⟨body, info, parameters, isOnly, rfl, heq⟩ := nameParameters_cases e <;> rw [heq]
  rw [Expr.errors_closure, Expr.errors_closure, (hrenaming isOnly).stmts]

theorem keepsErrors_doubleNegativesInGuards : doubleNegativesInGuards.KeepsErrors := by
  have hcondition (e : Expr) : (withoutNegation e).1.errors 0 = e.errors 0 := by
    fun_cases withoutNegation e <;> simp
  refine .of_stmt fun owner s => ?_
  show (cancelNegation s).errors 0 = s.errors 0
  fun_cases cancelNegation s with
  | case1 e body otherwise span condition isNegated heq =>
    have hsame := hcondition e.unparenthesized
    rw [heq, Expr.errors_unparenthesized] at hsame
    simp [Stmt.errors_eq, Stmt.parts, Condition.parts, hsame]
  | case2 => rfl

theorem keepsErrors_returnIfNil : returnIfNil.KeepsErrors := by
  refine .of_stmt fun owner s => ?_
  show (returnForNil s).errors 0 = s.errors 0
  fun_cases returnForNil s with
  | case1 condition inner span checked hchecked =>
    have hnil {e : Expr} (h : e.isNil = true) : e.errors 0 = 0 := by
      rw [← Expr.errors_unparenthesized]
      unfold Expr.isNil at h
      split at h <;> simp_all
    have hsame : checked.errors 0 = condition.errors 0 := by
      rw [← Expr.errors_unparenthesized condition]
      unfold comparedWithNil? at hchecked
      split at hchecked
      · split_ifs at hchecked
        split at hchecked <;> simp_all
      · cases hchecked
    simp [Stmt.errors_eq, Stmt.parts, Condition.parts, hsame, stmtErrors_cons]
  | _ => rfl

theorem keepsErrors_capitalizeEnumCases (registry : Registry) :
    (capitalizeEnumCases registry).KeepsErrors := by
  refine .of_expr fun called e => ?_
  obtain heq | ⟨base, n, isLibrary, style, style', info, rfl, heq⟩ := styleCase_cases registry e <;>
    rw [heq]
  simp

theorem keepsErrors_removeBreaksInSwitches : removeBreaksInSwitches.KeepsErrors := by
  refine .of_stmt fun owner s => ?_
  show (dropBreaks s).errors 0 = s.errors 0
  have hbody (body : List Stmt) : stmtErrors (dropBreak body) 0 = stmtErrors body 0 := by
    fun_cases dropBreak body with
    | case1 span hlast =>
      obtain ⟨init, rfl⟩ := List.getLast?_eq_some_iff.mp hlast
      simp [stmtErrors_cons, Stmt.errors_eq, Stmt.parts]
    | case2 => rfl
  have hcase (c : SwitchCase) :
      partErrors { c with body := dropBreak c.body }.parts 0 = partErrors c.parts 0 := by
    simp [SwitchCase.parts, hbody]
  have hidle {c : SwitchCase} (h : isIdle c = true) : partErrors c.parts 0 = 0 := by
    simp_all [isIdle, SwitchCase.parts]
  cases s with
  | switchStmt subject cases target span =>
    have hcases : partErrors (((cases.map fun c => { c with body := dropBreak c.body }).filter
        (!isIdle ·)).flatMap SwitchCase.parts) 0 = partErrors (cases.flatMap SwitchCase.parts)
        0 := by
      induction cases with
      | nil => rfl
      | cons c rest ih =>
        rw [List.map_cons, List.filter_cons, List.flatMap_cons, partErrors_append, ← ih, ← hcase c]
        split
        next => rw [List.flatMap_cons, partErrors_append]
        next h => rw [hidle (by simpa using h), Nat.zero_add]
    simp [dropBreaks, Stmt.errors_eq, Stmt.parts, -partErrors_flatMap, hcases]
  | _ => rfl

theorem keepsErrors_callLabelsToParameterNames (registry : Registry) :
    (callLabelsToParameterNames registry).KeepsErrors := by
  refine .of_expr fun called e => ?_
  fun_cases nameArguments registry e with
  | case1 callee arguments hasTrailing isPure info names hnames =>
    have harguments : (relabelCall names arguments).errors 0 = arguments.errors 0 := by
      have hparts := parts_relabelCall names arguments
      revert hparts
      rw [Expr.errors_eq, Expr.errors_eq]
      fun_cases relabelCall names arguments with
      | case1 | case3 => exact fun hparts => congrArg (0 + partErrors · 0) hparts
      | _ => exact fun _ => rfl
    simp [harguments]
  | case2 | case3 => rfl

theorem keepsErrors_pureCalls (registry : Registry) : (pureCalls registry).KeepsErrors := by
  refine .of_expr fun called e => ?_
  fun_cases markPure registry e <;> simp

theorem keepsErrors_standardLibrary : standardLibrary.KeepsErrors := by
  refine .of_expr fun called e => ?_
  fun_cases replaceReference called e <;> simp

/-! ## The two exceptions -/

/-- Whether a case is checked for by its type. -/
def isChecked : Expr → Bool
  | .member _ _ _ (some .hasPayload) _ => true
  | _ => false

/-- The error nodes that checks for cases copy: each has the subject of its `switch`. -/
def copiedErrors : Stmt → Nat
  | .switchStmt subject cases _ _ =>
    ((cases.flatMap (·.patterns)).map fun e => if isChecked e then subject.errors 0 else 0).sum
  | _ => 0

theorem errors_checkCases (s : Stmt) : (checkCases s).errors 0 = s.errors 0 + copiedErrors s := by
  cases s with
  | switchStmt subject cases target span =>
    have hpattern (e : Expr) : (checkCase subject e).errors 0 =
        e.errors 0 + if isChecked e then subject.errors 0 else 0 := by
      fun_cases checkCase subject e with
      | case1 => simp [isChecked, Nat.add_comm]
      | case2 e hother => simp [isChecked]
    have hcases : (cases.map fun c => partErrors
        { c with patterns := c.patterns.map (checkCase subject) }.parts 0).sum =
          (cases.map fun c => partErrors c.parts 0).sum +
            copiedErrors (.switchStmt subject cases target span) := by
      induction cases with
      | nil => rfl
      | cons c rest ih =>
        simp [SwitchCase.parts, Function.comp_def, hpattern, copiedErrors] at ih ⊢
        omega
    simp [checkCases, Stmt.errors_eq, Stmt.parts, Function.comp_def] at hcases ⊢
    omega
  | _ => rfl

def targetErrors (c : SwitchCase) : Nat :=
  (caseTarget? c).elim 0 fun target => partErrors target.parts 0

/-- The error nodes that a `switch` loses when it yields a value: all but one of the left sides that
it assigned to are dropped. -/
def droppedErrors : Stmt → Nat
  | .switchStmt _ cases none _ =>
    (commonTarget? cases).elim 0 fun _ => (cases.tail.map targetErrors).sum
  | _ => 0

theorem errors_yieldLast {c : SwitchCase} (h : (caseTarget? c).isSome = true) :
    partErrors c.parts 0 = partErrors (yieldLast c).parts 0 + targetErrors c := by
  obtain ⟨patterns, body, span⟩ := c
  obtain ⟨target, htarget⟩ := Option.isSome_iff_exists.mp h
  rw [targetErrors, htarget, Option.elim_some]
  rw [caseTarget?_eq] at htarget
  obtain ⟨last, hlast, hhanded⟩ := Option.bind_eq_some_iff.mp htarget
  obtain ⟨init, rfl⟩ := List.getLast?_eq_some_iff.mp hlast
  have hsplit : last.errors 0 = (yielded last).errors 0 + partErrors target.parts 0 := by
    unfold handedTo? at hhanded
    split at hhanded <;> cases hhanded <;>
      simp [yielded, Stmt.errors_eq, Stmt.parts, SwitchTarget.parts, Nat.add_comm]
  simp [yieldLast, SwitchCase.parts, stmtErrors_cons, hsplit]
  omega

theorem errors_toValue (s : Stmt) : (toValue s).errors 0 + droppedErrors s = s.errors 0 := by
  cases s with
  | switchStmt subject cases target span =>
    cases target with
    | none =>
      rw [toValue_eq, droppedErrors]
      cases h : commonTarget? cases with
      | none => rfl
      | some target =>
        have hcases := List.map_congr_left fun c hc =>
          errors_yieldLast (isSome_caseTarget_of_common h c hc)
        cases cases with
        | nil => exact absurd h (Option.some_ne_none _).symm
        | cons first rest =>
          have hfirst : targetErrors first = partErrors target.parts 0 := by
            rw [targetErrors, (Option.filter_eq_some_iff.mp h).1, Option.elim_some]
          have hsum := congrArg List.sum hcases
          rw [List.sum_map_add] at hsum
          simp [Stmt.errors_eq, Stmt.parts, Function.comp_def, hfirst] at hsum ⊢
          omega
    | some target => cases cases <;> rfl
  | _ => rfl

theorem errors_joinDeclarations (list : List Stmt) :
    stmtErrors (joinDeclarations list) 0 = stmtErrors list 0 := by
  fun_induction joinDeclarations list with
  | case1 item next rest hjoins ih =>
    have hnext : (asInitializer item next).errors 0 = next.errors 0 + partErrors item.parts 0 := by
      unfold joins assignedName? at hjoins
      split at hjoins
      next subject cases lhs span =>
        obtain ⟨name, hname, -⟩ := (Option.any_eq_true _ _).mp hjoins
        simp [asInitializer, Stmt.errors_eq, Stmt.parts, SwitchTarget.parts,
          errors_of_referencedName hname]
        omega
      next => exact absurd hjoins Bool.false_ne_true
    rw [stmtErrors_cons, ih, hnext, stmtErrors_cons, stmtErrors_cons]
    simp [Stmt.errors_eq, Stmt.parts]
    omega
  | case2 item next rest hjoins ih => rw [stmtErrors_cons, ih, ← stmtErrors_cons]
  | case3 s rest hs ih => rw [stmtErrors_cons, ih, ← stmtErrors_cons]
  | case4 => rfl

end Pass

/-! ## All passes -/

namespace PassId

open Pass

/-- The error nodes that a pass copies at a statement. -/
def copiedErrors : PassId → Stmt → Nat
  | .isChecksForPayloadCases, s => Pass.copiedErrors s
  | _, _ => 0

/-- The error nodes that a pass drops at a statement. -/
def droppedErrors : PassId → Stmt → Nat
  | .switchesToExpressions, s => Pass.droppedErrors s
  | _, _ => 0

theorem balances_transform (registry : Registry) (pass : PassId) :
    (pass.transform registry).Balances pass.droppedErrors pass.copiedErrors := by
  cases pass with
  | isChecksForPayloadCases =>
    exact .of_stmts ⟨fun _ => rfl, fun _ => rfl, fun _ _ => rfl⟩ (fun _ _ _ => rfl)
      (fun _ s => errors_checkCases s) fun _ => rfl
  | switchesToExpressions =>
    exact .of_stmts keepsExprs_switchesToExpressions (fun _ _ _ => rfl)
      (fun _ s => errors_toValue s) errors_joinDeclarations
  | removeParentheses => exact keepsErrors_removeParentheses.balances _
  | defersToFinally => exact keepsErrors_defersToFinally.balances _
  | removeExtensions => exact keepsErrors_removeExtensions.balances _
  | optionalInitsToFactories => exact keepsErrors_optionalInitsToFactories.balances _
  | staticMembersToCompanion => exact keepsErrors_staticMembersToCompanion.balances _
  | anonymousParameters => exact keepsErrors_anonymousParameters.balances _
  | doubleNegativesInGuards => exact keepsErrors_doubleNegativesInGuards.balances _
  | returnIfNil => exact keepsErrors_returnIfNil.balances _
  | capitalizeEnumCases => exact (keepsErrors_capitalizeEnumCases registry).balances _
  | removeBreaksInSwitches => exact keepsErrors_removeBreaksInSwitches.balances _
  | callLabelsToParameterNames => exact (keepsErrors_callLabelsToParameterNames registry).balances _
  | pureCalls => exact (keepsErrors_pureCalls registry).balances _
  | standardLibrary => exact keepsErrors_standardLibrary.balances _
  | _ => exact (Transform.KeepsErrors.of_expr fun _ _ => rfl).balances _

end PassId

namespace Pipeline

/-- What passes count at statements, each in the file that it is given. -/
def countAlong (registry : Registry) (count : PassId → Stmt → Nat) : List PassId → SourceFile → Nat
  | [], _ => 0
  | pass :: rest, file =>
    (pass.transform registry).countIn (count pass) file +
      countAlong registry count rest ((pass.transform registry).onFile file)

theorem placeholders_changed (registry : Registry) (passes : List PassId) (file : SourceFile) :
    (changed registry passes file).placeholders.length +
        countAlong registry PassId.droppedErrors passes file =
      file.placeholders.length + countAlong registry PassId.copiedErrors passes file := by
  induction passes generalizing file with
  | nil => rfl
  | cons pass rest ih =>
    have hpass := (pass.balances_transform registry).file file
    have hrest := ih ((pass.transform registry).onFile file)
    rw [countAlong, countAlong]
    show (changed registry rest ((pass.transform registry).onFile file)).placeholders.length + _ = _
    omega

/-- The error nodes that the passes copy. -/
def copied (registry : Registry) (file : SourceFile) : Nat :=
  countAlong registry PassId.copiedErrors PassId.transforming (collected file)

/-- The error nodes that the passes drop. -/
def dropped (registry : Registry) (file : SourceFile) : Nat :=
  countAlong registry PassId.droppedErrors PassId.transforming (collected file)

theorem placeholders_finished (registry : Registry) (file : SourceFile) :
    (finished registry file).placeholders.length + dropped registry file =
      file.placeholders.length + copied registry file := by
  have hcollected : (collected file).placeholders.length = file.placeholders.length :=
    (Pass.keepsErrors_classifyEnums.file _).trans (Pass.keepsErrors_cleanInheritances.file _)
  rw [finished_eq_changed, ← hcollected]
  exact placeholders_changed registry PassId.transforming (collected file)

end Pipeline

end Ferry
