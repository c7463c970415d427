/-
  Ferry.Proofs.Pass.SwitchRestoration

  Switches that yield a value, turned back into statements.  Each case gets the statement back that
  hands its value over, and a variable that was joined with its `switch` stands before it again.

  That is not what was there before: all cases now assign to the place of the first case, or to the
  plain name of the variable (`onFile_switchesToStatements`), while the places of a `switch` need
  only read alike for it to become a value, and expressions that read alike may well be different
  ones. Where they are the same but for where they stand in the source, nothing is lost but that
  (`placeless_assignsAlike`).
-/
import Ferry.Proofs.Pass.SwitchOutline
import Ferry.Proofs.Traverse.Placeless
import Ferry.Proofs.Traverse.Reading

namespace Ferry

namespace Pass

/-! ## Values back into statements -/

def onLast (f : Stmt → Stmt) (c : SwitchCase) : SwitchCase :=
  { c with body := c.body.dropLast ++ (c.body.getLast?.map f).toList }

def handed (e : Expr) (span : Option Span) : SwitchTarget → Stmt
  | .returned => .returnStmt (some e) span
  | .assigned lhs => .assign lhs e span
  | .declared item => .assign (.name item.name false false {}) e span

/-- A value that stands as a statement, handed over. -/
def valueHanded (target : SwitchTarget) : Stmt → Stmt
  | .expression e span => handed e span target
  | s => s

/-- A `switch` that yields a value as one whose cases hand theirs over. -/
def restored : Stmt → Stmt
  | .switchStmt subject cases (some target) span =>
    .switchStmt subject (cases.map (onLast (valueHanded target))) none span
  | s => s

def joinedDeclaration : Stmt → List Stmt
  | .switchStmt _ _ (some (.declared item)) _ => [.declare item]
  | _ => []

/-- Turns all switches that yield values back into statements. -/
def switchesToStatements : Transform where
  stmt _ s := joinedDeclaration s ++ [restored s]

/-! ## Assigning to one place -/

/-- The place of the first case, if all cases hand their values to places that read like it. -/
def commonTarget? : List SwitchCase → Option SwitchTarget
  | [] => none
  | first :: rest => (caseTarget? first).filter fun target =>
    (first :: rest).all fun c => (caseTarget? c).any (sameTarget · target)

/-- The place that a `switch` will yield its value to. -/
def valueTarget? : Stmt → Option SwitchTarget
  | .switchStmt _ cases none _ => commonTarget? cases
  | _ => none

/-- A statement that hands a value over, to another place. -/
def rehanded (target : SwitchTarget) : Stmt → Stmt
  | .returnStmt (some e) span => handed e span target
  | .assign _ e span => handed e span target
  | s => s

/-- The `switch` with all its values handed to one place. -/
def aligned (target : SwitchTarget) : Stmt → Stmt
  | .switchStmt subject cases none span =>
    .switchStmt subject (cases.map (onLast (rehanded target))) none span
  | s => s

/-- Whether a place is the variable declared by an item without a value. -/
def isFor (item : Variable) : SwitchTarget → Bool
  | .assigned lhs => lhs.referencedName?.any (declares · item)
  | _ => false

/-- Every `switch` that will yield a value handing it to the place of its first case, or by the
plain name to the variable declared right before it. -/
def alignAll : List Stmt → List Stmt
  | .declare item :: next :: rest =>
    if (valueTarget? next).any (isFor item) then
      .declare item :: aligned (.declared item) next :: alignAll rest
    else .declare item :: alignAll (next :: rest)
  | s :: rest => ((valueTarget? s).elim s (aligned · s)) :: alignAll rest
  | [] => []

def assignsAlike : Transform where
  block := alignAll

theorem keepsExprs_switchesToExpressions : switchesToExpressions.KeepsExprs :=
  ⟨fun _ => rfl, fun _ => rfl, fun _ _ => rfl⟩

theorem keepsExprs_switchesToStatements : switchesToStatements.KeepsExprs :=
  ⟨fun _ => rfl, fun _ => rfl, fun _ _ => rfl⟩

theorem keepsExprs_assignsAlike : assignsAlike.KeepsExprs :=
  ⟨fun _ => rfl, fun _ => rfl, fun _ _ => rfl⟩

/-! ## What will be a value -/

theorem toValue_eq (subject : Expr) (cases : List SwitchCase) (span : Option Span) :
    toValue (.switchStmt subject cases none span) =
      (commonTarget? cases).elim (.switchStmt subject cases none span)
        fun target => .switchStmt subject (cases.map yieldLast) (some target) span := by
  cases cases with
  | nil => rfl
  | cons first rest =>
    rw [toValue, commonTarget?]
    cases caseTarget? first with
    | none => rfl
    | some target =>
      rw [Option.filter_some]
      dsimp only
      split <;> rfl

theorem isSome_caseTarget_of_common {cases : List SwitchCase} {target : SwitchTarget}
    (h : commonTarget? cases = some target) : ∀ c ∈ cases, (caseTarget? c).isSome = true := by
  cases cases with
  | nil => exact fun c hc => absurd hc List.not_mem_nil
  | cons first rest =>
    obtain ⟨-, hall⟩ := Option.filter_eq_some_iff.mp h
    exact fun c hc => Option.isSome_of_any (List.all_eq_true.mp hall c hc)

/-- No `switch` hands to a variable that it declares before it is joined with it. -/
theorem common_ne_declared {cases : List SwitchCase} {item : Variable} :
    commonTarget? cases ≠ some (.declared item) := by
  cases cases with
  | nil => exact (Option.some_ne_none _).symm
  | cons first rest =>
    intro h
    obtain ⟨htarget, -⟩ := Option.filter_eq_some_iff.mp h
    unfold caseTarget? at htarget
    split at htarget <;> cases htarget

def handedTo? : Stmt → Option SwitchTarget
  | .returnStmt (some _) _ => some .returned
  | .assign lhs _ _ => some (.assigned lhs)
  | _ => none

theorem caseTarget?_eq (c : SwitchCase) : caseTarget? c = c.body.getLast?.bind handedTo? := by
  unfold caseTarget?
  cases c.body.getLast? with
  | none => rfl
  | some last =>
    cases last with
    | returnStmt value span => cases value <;> rfl
    | _ => rfl

theorem commonTarget?_map {f : SwitchCase → SwitchCase} {g : SwitchTarget → SwitchTarget}
    (cases : List SwitchCase) (hf : ∀ c, caseTarget? (f c) = (caseTarget? c).map g)
    (hg : ∀ a b, sameTarget (g a) (g b) = sameTarget a b) :
    commonTarget? (cases.map f) = (commonTarget? cases).map g := by
  cases cases with
  | nil => rfl
  | cons first rest =>
    rw [List.map_cons, commonTarget?, commonTarget?, hf first]
    cases caseTarget? first with
    | none => rfl
    | some target =>
      have hall : ((f first :: rest.map f).all fun c =>
          (caseTarget? c).any (sameTarget · (g target))) =
          (first :: rest).all fun c => (caseTarget? c).any (sameTarget · target) := by
        rw [← List.map_cons, List.all_map]
        refine List.all_congr rfl fun c => ?_
        simp only [Function.comp_apply, hf, Option.any_map, hg]
      rw [Option.map_some, Option.filter_some, Option.filter_some, hall]
      split <;> rfl

theorem sameTarget_mapParts {t : Transform} (ht : t.KeepsExprs) (owner : Option String)
    (a b : SwitchTarget) :
    sameTarget (a.mapParts (t.change owner)) (b.mapParts (t.change owner)) = sameTarget a b := by
  cases a <;> cases b <;> try rfl
  exact congrArg₂ (· == ·) (ht.text_onExpr _ _ _) (ht.text_onExpr _ _ _)

/-- A change of statements that leaves at the end of lists what hands values over. -/
theorem commonTarget?_mapParts {t : Transform} (ht : t.KeepsExprs) (owner : Option String)
    (hlast : ∀ list, (t.onStmts owner list).getLast?.bind handedTo? =
      (list.getLast?.bind handedTo?).map (SwitchTarget.mapParts (t.change owner)))
    (cases : List SwitchCase) :
    commonTarget? (cases.map (SwitchCase.mapParts (t.change owner))) =
      (commonTarget? cases).map (SwitchTarget.mapParts (t.change owner)) := by
  refine commonTarget?_map cases (fun c => ?_) (sameTarget_mapParts ht owner)
  rw [caseTarget?_eq, caseTarget?_eq]
  exact hlast c.body

/-! ## What comes back -/

section

variable (owner : Option String)

theorem onStmts_switchesToStatements (list : List Stmt) :
    switchesToStatements.onStmts owner list = list.flatMap fun s =>
      joinedDeclaration (s.mapParts (switchesToStatements.change owner)) ++
        [restored (s.mapParts (switchesToStatements.change owner))] :=
  keepsExprs_switchesToStatements.onStmts_eq owner list

theorem onStmts_assignsAlike (list : List Stmt) :
    assignsAlike.onStmts owner list =
      alignAll (list.map (Stmt.mapParts (assignsAlike.change owner))) := by
  rw [keepsExprs_assignsAlike.onStmts_eq, List.map_eq_flatMap]
  rfl

theorem onStmts_concat (init : List Stmt) (last : Stmt) :
    switchesToStatements.onStmts owner (init ++ [last]) =
      switchesToStatements.onStmts owner init ++
        (joinedDeclaration (last.mapParts (switchesToStatements.change owner)) ++
          [restored (last.mapParts (switchesToStatements.change owner))]) := by
  simp only [onStmts_switchesToStatements, List.flatMap_append, List.flatMap_singleton]

theorem handedTo?_restored (φ : Change) (s : Stmt) :
    handedTo? (restored (s.mapParts φ)) = (handedTo? s).map (SwitchTarget.mapParts φ) := by
  cases s with
  | switchStmt subject cases target span => cases target <;> rfl
  | returnStmt value span => cases value <;> rfl
  | _ => rfl

theorem getLast?_switchesToStatements (list : List Stmt) :
    (switchesToStatements.onStmts owner list).getLast?.bind handedTo? =
      (list.getLast?.bind handedTo?).map
        (SwitchTarget.mapParts (switchesToStatements.change owner)) := by
  obtain rfl | ⟨init, last, rfl⟩ := List.eq_nil_or_concat' list
  · rfl
  · rw [onStmts_concat, ← List.append_assoc, List.getLast?_concat, List.getLast?_concat]
    exact handedTo?_restored _ last

theorem commonTarget?_switchesToStatements (cases : List SwitchCase) :
    commonTarget? (cases.map (SwitchCase.mapParts (switchesToStatements.change owner))) =
      (commonTarget? cases).map (SwitchTarget.mapParts (switchesToStatements.change owner)) :=
  commonTarget?_mapParts keepsExprs_switchesToStatements owner (getLast?_switchesToStatements owner)
    cases

theorem onLast_concat (f : Stmt → Stmt) (patterns : List Expr) (init : List Stmt) (last : Stmt)
    (span : Option Span) :
    onLast f ⟨patterns, init ++ [last], span⟩ = ⟨patterns, init ++ [f last], span⟩ := by
  simp only [onLast, List.dropLast_concat, List.getLast?_concat, Option.map_some,
    Option.toList_some]

/-- A case that has lost what hands its value over gets it back, to any place. -/
theorem valueHanded_yieldLast (target : SwitchTarget) {c : SwitchCase}
    (h : (caseTarget? c).isSome = true) :
    onLast (valueHanded target) ((yieldLast c).mapParts (switchesToStatements.change owner)) =
      onLast (rehanded target) (c.mapParts (switchesToStatements.change owner)) := by
  obtain ⟨patterns, body, span⟩ := c
  rw [caseTarget?_eq] at h
  obtain rfl | ⟨init, last, rfl⟩ := List.eq_nil_or_concat' body
  · exact absurd h Bool.false_ne_true
  · simp only [List.getLast?_concat, Option.bind_some] at h
    rw [show yieldLast = onLast yielded from rfl, onLast_concat]
    have hbody : ∀ list, (switchesToStatements.change owner).body list =
      switchesToStatements.onStmts owner list := fun _ => rfl
    simp only [SwitchCase.mapParts, hbody, onStmts_concat, ← List.append_assoc, onLast_concat]
    unfold handedTo? at h
    split at h
    next => rfl
    next => rfl
    next => exact absurd h Bool.false_ne_true

/-- That a statement is no `switch` that yields a value. -/
def IsTargetless (s : Stmt) : Prop := ∀ found ∈ s.switch?, found.target = none

theorem isTargetless_switch {subject : Expr} {cases : List SwitchCase}
    {target : Option SwitchTarget}
    {span : Option Span} (h : IsTargetless (.switchStmt subject cases target span)) :
    target = none :=
  h _ rfl

theorem valueTarget?_mapParts {s : Stmt} (h : IsTargetless s) :
    let φ := switchesToStatements.change owner
    valueTarget? (s.mapParts φ) = (valueTarget? s).map (SwitchTarget.mapParts φ) := by
  cases s with
  | switchStmt subject cases target span =>
    obtain rfl := isTargetless_switch h
    exact commonTarget?_switchesToStatements owner cases
  | _ => rfl

theorem restored_toValue {s : Stmt} (h : IsTargetless s) :
    let φ := switchesToStatements.change owner
    joinedDeclaration ((toValue s).mapParts φ) ++ [restored ((toValue s).mapParts φ)] =
      [(valueTarget? (s.mapParts φ)).elim (s.mapParts φ) (aligned · (s.mapParts φ))] := by
  intro φ
  cases s with
  | switchStmt subject cases target span =>
    rw [valueTarget?_mapParts owner h]
    obtain rfl := isTargetless_switch h
    rw [toValue_eq, show valueTarget? (.switchStmt subject cases none span) =
      commonTarget? cases from rfl]
    cases hcommon : commonTarget? cases with
    | none => rfl
    | some target =>
      have hcases := List.map_congr_left fun c hc => valueHanded_yieldLast owner (target.mapParts φ)
        (isSome_caseTarget_of_common hcommon c hc)
      -- A target that all cases have in common is never a declaration, so nothing comes back before
      -- it.
      have hnone : joinedDeclaration ((Stmt.switchStmt subject (cases.map yieldLast) (some target)
          span).mapParts φ) = [] := by
        cases target with
        | declared item => exact absurd hcommon common_ne_declared
        | _ => rfl
      simp only [Option.elim_some, hnone, List.nil_append, Option.map_some]
      simp only [Stmt.mapParts, restored, aligned, Option.map_some, Option.map_none, List.map_map]
      exact congrArg (fun cases => [Stmt.switchStmt _ cases none span]) hcases
  | _ => rfl

theorem joins_toValue (item : Variable) {s : Stmt} (h : IsTargetless s) :
    joins item (toValue s) = (valueTarget? s).any (isFor item) := by
  cases s with
  | switchStmt subject cases target span =>
    obtain rfl := isTargetless_switch h
    rw [toValue_eq, show valueTarget? (.switchStmt subject cases none span) =
      commonTarget? cases from rfl]
    cases commonTarget? cases with
    | none => rfl
    | some target => cases target <;> rfl
  | _ => rfl

theorem declares_mapParts (φ : Change) (name : String) (item : Variable) :
    declares name (item.mapParts φ) = declares name item := by
  simp [declares, Variable.mapParts, Variable.isComputed]

theorem any_isFor_mapParts (item : Variable) {s : Stmt} (h : IsTargetless s) :
    let φ := switchesToStatements.change owner
    (valueTarget? (s.mapParts φ)).any (isFor (item.mapParts φ)) =
      (valueTarget? s).any (isFor item) := by
  intro φ
  rw [valueTarget?_mapParts owner h, Option.any_map]
  refine congrArg (Option.any · (valueTarget? s)) (funext fun target => ?_)
  cases target with
  | assigned lhs =>
    show (Expr.referencedName? (switchesToStatements.onExpr _ _ lhs)).any _ = _
    rw [keepsExprs_switchesToStatements.referencedName?_onExpr]
    simp only [declares_mapParts]
    rfl
  | _ => rfl

theorem restored_asInitializer {item : Variable} {s : Stmt} (h : IsTargetless s)
    (hfor : (valueTarget? s).any (isFor item) = true) :
    let φ := switchesToStatements.change owner
    let joined := (asInitializer item (toValue s)).mapParts φ
    joinedDeclaration joined ++ [restored joined] =
      [.declare (item.mapParts φ), aligned (.declared (item.mapParts φ)) (s.mapParts φ)] := by
  intro φ joined
  obtain ⟨target, hcommon⟩ := Option.isSome_iff_exists.mp (Option.isSome_of_any hfor)
  cases s with
  | switchStmt subject cases old span =>
    obtain rfl := isTargetless_switch h
    have hcases := List.map_congr_left fun c hc =>
      valueHanded_yieldLast owner (.declared (item.mapParts φ))
        (isSome_caseTarget_of_common hcommon c hc)
    -- The target of the cases gives way to the variable.
    have hjoined : joined = (Stmt.switchStmt subject (cases.map yieldLast) (some (.declared item))
        span).mapParts φ := by
      show (asInitializer item (toValue (.switchStmt subject cases none span))).mapParts φ = _
      rw [toValue_eq, show commonTarget? cases = some target from hcommon]
      rfl
    rw [hjoined]
    simp only [Stmt.mapParts, joinedDeclaration, restored, aligned, Option.map_some,
      Option.map_none, List.map_map]
    exact congrArg (fun cases => [Stmt.declare _, Stmt.switchStmt _ cases none span]) hcases
  | _ => exact absurd hcommon (Option.not_mem_none _)

theorem toValue_eq_declare {s : Stmt} {item : Variable} (h : toValue s = .declare item) :
    s = .declare item := by
  obtain heq | ⟨subject, cases, target, span, heq⟩ := toValue_cases s
  · exact heq.symm.trans h
  · exact absurd (heq.symm.trans h) Stmt.noConfusion

theorem mapParts_eq_declare {φ : Change} {s : Stmt} {item : Variable}
    (h : s.mapParts φ = .declare item) : ∃ origin, s = .declare origin := by
  cases s with
  | declare origin => exact ⟨origin, rfl⟩
  | _ => exact absurd h Stmt.noConfusion

theorem flatMap_joinDeclarations (list : List Stmt) (h : ∀ s ∈ list, IsTargetless s) :
    let φ := switchesToStatements.change owner
    (joinDeclarations (list.map toValue)).flatMap (fun s =>
        joinedDeclaration (s.mapParts φ) ++ [restored (s.mapParts φ)]) =
      alignAll (list.map (Stmt.mapParts φ)) := by
  intro φ
  fun_induction alignAll list with
  | case1 item next rest hfor ih =>
    -- The next statement is joined with the variable.
    obtain ⟨-, hnext, hrest⟩ := List.forall_mem_cons.mp h |>.imp_right List.forall_mem_cons.mp
    have hjoins := (joins_toValue item hnext).trans hfor
    have hmapped := (any_isFor_mapParts owner item hnext).trans hfor
    show (joinDeclarations (.declare item :: toValue next :: rest.map toValue)).flatMap _ =
      alignAll (.declare (item.mapParts φ) :: next.mapParts φ :: rest.map (Stmt.mapParts φ))
    rw [joinDeclarations, if_pos hjoins, alignAll, if_pos hmapped, List.flatMap_cons, ih hrest,
      restored_asInitializer owner hnext hfor]
    rfl
  | case2 item next rest hfor ih =>
    -- It is not, and the variable comes back alone.
    obtain ⟨-, hrest⟩ := List.forall_mem_cons.mp h
    have hnext := hrest next List.mem_cons_self
    have hjoins := (joins_toValue item hnext).trans (Bool.eq_false_iff.mpr hfor)
    have hmapped := (any_isFor_mapParts owner item hnext).trans (Bool.eq_false_iff.mpr hfor)
    show (joinDeclarations (.declare item :: toValue next :: rest.map toValue)).flatMap _ =
      alignAll (.declare (item.mapParts φ) :: next.mapParts φ :: rest.map (Stmt.mapParts φ))
    rw [joinDeclarations, if_neg (Bool.eq_false_iff.mp hjoins), alignAll,
      if_neg (Bool.eq_false_iff.mp hmapped), List.flatMap_cons]
    exact congrArg (Stmt.declare (item.mapParts φ) :: ·) (ih hrest)
  | case3 s rest hs ih =>
    obtain ⟨hfirst, hrest⟩ := List.forall_mem_cons.mp h
    rw [List.map_cons, List.map_cons, joinDeclarations, alignAll, List.flatMap_cons, ih hrest,
      restored_toValue owner hfirst, List.singleton_append]
    -- The declarations that are joined are those that were there: none is made on the way.
    · intro item next more hdeclare hmore
      obtain ⟨origin, rfl⟩ := mapParts_eq_declare hdeclare
      cases rest with
      | nil => exact List.cons_ne_nil _ _ hmore.symm
      | cons next more => exact hs origin next more rfl rfl
    · intro item next more hdeclare hmore
      obtain rfl := toValue_eq_declare hdeclare
      cases rest with
      | nil => exact List.cons_ne_nil _ _ hmore.symm
      | cons next more => exact hs item next more rfl rfl
  | case4 => rfl

end

theorem onFragment_switchesToStatements {place : Place} {fragment : Fragment}
    (h : (Demand.ofSwitches fun found => found.target = none).Met place fragment)
    (owner : Option String) :
    switchesToStatements.onFragment owner (switchesToExpressions.onFragment owner fragment) =
      assignsAlike.onFragment owner fragment := by
  induction h generalizing owner with
  | @expr place called e own _ ih =>
    simp only [Transform.onFragment, keepsExprs_switchesToExpressions.onExpr_eq,
      keepsExprs_switchesToStatements.onExpr_eq, keepsExprs_assignsAlike.onExpr_eq]
    rw [Transform.Chains.mapParts_expr fun part hpart => ih part hpart _]
  | @stmts place list own _ _ ih =>
    -- Parts first, by induction; then the list, whose switches are those of the parts changed.
    have hparts : ∀ s ∈ list, (s.mapParts (switchesToExpressions.change owner)).mapParts
        (switchesToStatements.change owner) = s.mapParts (assignsAlike.change owner) :=
      fun s hs => Transform.Chains.mapParts_stmt fun part hpart => ih s hs part hpart _
    have htargetless : ∀ s ∈ list.map (Stmt.mapParts (switchesToExpressions.change owner)),
        IsTargetless s := by
      refine List.forall_mem_map.mpr fun s hs found' hfound' => ?_
      obtain ⟨found, hfound, htarget, -⟩ := sameOutline_mapParts _ s found' hfound'
      exact htarget (own s hs found hfound)
    have hvalues : switchesToExpressions.onStmts owner list = joinDeclarations
        ((list.map (Stmt.mapParts (switchesToExpressions.change owner))).map toValue) := by
      rw [keepsExprs_switchesToExpressions.onStmts_eq, List.map_map, List.map_eq_flatMap]
      rfl
    simp only [Transform.onFragment]
    rw [hvalues, onStmts_assignsAlike, onStmts_switchesToStatements,
      flatMap_joinDeclarations owner _ htargetless, List.map_map]
    exact congrArg (fun list => Fragment.stmts (alignAll list)) (List.map_congr_left hparts)

/-! ## Places that agree -/

/-- The place that a value is handed to, as it is without places. -/
def erased : SwitchTarget → SwitchTarget
  | .returned => .returned
  | .assigned lhs => .assigned (placeless.onExpr none false lhs).nameAlone
  | .declared item => .assigned (.name item.name false false {})

theorem unplaced_handed (owner : Option String) (e : Expr) (span : Option Span)
    (target : SwitchTarget) :
    ((handed e span target).mapParts (placeless.change owner)).unplaced =
      handed (placeless.onExpr owner false e) none (erased target) := by
  cases target with
  | returned => rfl
  | assigned lhs =>
    exact congrArg
      (fun place : Expr => Stmt.assign place.nameAlone (placeless.onExpr owner false e) none)
      (onExpr_placeless_congr owner false lhs)
  | declared item => rfl

theorem exists_handed {s : Stmt} {target : SwitchTarget} (h : handedTo? s = some target) :
    ∃ e span, s = handed e span target ∧ ∀ other, rehanded other s = handed e span other := by
  unfold handedTo? at h
  split at h
  next e span =>
    obtain rfl := Option.some.inj h
    exact ⟨e, span, rfl, fun _ => rfl⟩
  next lhs e span =>
    obtain rfl := Option.some.inj h
    exact ⟨e, span, rfl, fun _ => rfl⟩
  next => exact absurd h (Option.some_ne_none _).symm

theorem handedTo?_unplaced (owner : Option String) (s : Stmt) :
    handedTo? (s.mapParts (placeless.change owner)).unplaced = (handedTo? s).map erased := by
  cases htarget : handedTo? s with
  | some target =>
    obtain ⟨e, span, rfl, -⟩ := exists_handed htarget
    rw [unplaced_handed]
    cases target with
    | declared item => exact absurd htarget (by simp [handed, handedTo?])
    | _ => rfl
  | none =>
    cases s with
    | returnStmt value span =>
      cases value with
      | none => rfl
      | some e => exact absurd htarget (Option.some_ne_none _)
    | assign lhs rhs span => exact absurd htarget (Option.some_ne_none _)
    | _ => rfl

/-- What is seen of the place of a case is seen in its statements without places. -/
theorem map_erased_caseTarget (owner : Option String) (c : SwitchCase) :
    (caseTarget? c).map erased = (placeless.onStmts owner c.body).getLast?.bind handedTo? := by
  rw [caseTarget?_eq, onStmts_placeless, List.getLast?_map, List.getLast?_map]
  cases c.body.getLast? with
  | none => rfl
  | some last => exact (handedTo?_unplaced owner last).symm

/-- That cases which will yield one value hand it to one place, but for where that stands. -/
def Agree (cases : List SwitchCase) : Prop :=
  (commonTarget? cases).isSome = true →
    ∀ a ∈ cases, ∀ b ∈ cases, (caseTarget? a).map erased = (caseTarget? b).map erased

section

variable (owner : Option String)

theorem onLast_rehanded_placeless {target : SwitchTarget} {c : SwitchCase}
    (h : (caseTarget? c).map erased = some (erased target)) :
    (onLast (rehanded target) c).mapParts (placeless.change owner) =
      c.mapParts (placeless.change owner) := by
  obtain ⟨patterns, body, span⟩ := c
  obtain ⟨own, hown, herased⟩ := Option.map_eq_some_iff.mp h
  rw [caseTarget?_eq] at hown
  obtain rfl | ⟨init, last, rfl⟩ := List.eq_nil_or_concat' body
  · exact absurd hown (Option.some_ne_none _).symm
  · simp only [List.getLast?_concat, Option.bind_some] at hown
    obtain ⟨e, place, rfl, hrehanded⟩ := exists_handed hown
    have hbody : ∀ list, (placeless.change owner).body list = placeless.onStmts owner list :=
      fun _ => rfl
    simp only [onLast_concat, SwitchCase.mapParts, hbody, onStmts_placeless, List.map_append,
      List.map_cons, List.map_nil, hrehanded, unplaced_handed, herased]

theorem aligned_placeless {target : SwitchTarget} {s : Stmt}
    (h : ∀ found ∈ s.switch?, ∀ c ∈ found.cases, (caseTarget? c).map erased =
      some (erased target)) :
    (aligned target s).mapParts (placeless.change owner) = s.mapParts (placeless.change owner) := by
  fun_cases aligned target s with
  | case1 subject cases span =>
    have hcases : (cases.map (onLast (rehanded target))).map
        (SwitchCase.mapParts (placeless.change owner)) =
          cases.map (SwitchCase.mapParts (placeless.change owner)) := by
      rw [List.map_map]
      exact List.map_congr_left fun c hc => onLast_rehanded_placeless owner (h _ rfl c hc)
    rw [Stmt.mapParts, Stmt.mapParts, hcases]
  | case2 => rfl

theorem map_erased_of_agree {s : Stmt} {target : SwitchTarget}
    (htarget : valueTarget? s = some target) (h : ∀ found ∈ s.switch?, Agree found.cases) :
    ∀ found ∈ s.switch?, ∀ c ∈ found.cases, (caseTarget? c).map erased = some (erased target) := by
  intro found hfound c hc
  unfold valueTarget? at htarget
  split at htarget
  next subject cases span =>
    obtain rfl := Option.some.inj hfound
    have hall := h _ rfl (Option.isSome_iff_exists.mpr ⟨target, htarget⟩)
    cases cases with
    | nil => exact absurd hc List.not_mem_nil
    | cons first rest =>
      obtain ⟨hfirst, -⟩ := Option.filter_eq_some_iff.mp htarget
      rw [hall c hc first List.mem_cons_self, hfirst]
      rfl
  next => exact absurd htarget (Option.some_ne_none _).symm

theorem erased_of_isFor {item : Variable} {target : SwitchTarget} (h : isFor item target = true) :
    erased target = erased (.declared item) := by
  unfold isFor at h
  split at h
  next lhs =>
    cases hname : lhs.referencedName? with
    | none =>
      rw [hname] at h
      exact absurd h Bool.false_ne_true
    | some n =>
      rw [hname, Option.any_some] at h
      have hn : item.name = n := by
        simp only [declares, Bool.and_eq_true, beq_iff_eq] at h
        exact h.1.1.1
      rw [erased, erased, Expr.nameAlone, referencedName?_placeless, hname, hn]
  next => exact absurd h Bool.false_ne_true

theorem alignAll_placeless {list : List Stmt} (h : ∀ s ∈ list, ∀ found ∈ s.switch?,
    Agree found.cases) : (alignAll list).map (Stmt.mapParts (placeless.change owner)) =
      list.map (Stmt.mapParts (placeless.change owner)) := by
  fun_induction alignAll list with
  | case1 item next rest hfor ih =>
    obtain ⟨-, hnext, hrest⟩ := List.forall_mem_cons.mp h |>.imp_right List.forall_mem_cons.mp
    -- The variable is the place that all cases assign to.
    obtain ⟨target, htarget⟩ := Option.isSome_iff_exists.mp (Option.isSome_of_any hfor)
    rw [htarget] at hfor
    have hplace := map_erased_of_agree htarget hnext
    rw [erased_of_isFor hfor] at hplace
    rw [List.map_cons, List.map_cons, ih hrest, aligned_placeless owner hplace, List.map_cons,
      List.map_cons]
  | case2 item next rest hfor ih =>
    rw [List.map_cons, ih (List.forall_mem_cons.mp h).2]
    rfl
  | case3 s rest hs ih =>
    obtain ⟨hfirst, hrest⟩ := List.forall_mem_cons.mp h
    rw [List.map_cons, ih hrest, List.map_cons]
    cases htarget : valueTarget? s with
    | none => rfl
    | some target =>
      rw [Option.elim_some, aligned_placeless owner (map_erased_of_agree htarget hfirst)]
  | case4 => rfl

theorem handedTo?_mapParts (φ : Change) (s : Stmt) :
    handedTo? (s.mapParts φ) = (handedTo? s).map (SwitchTarget.mapParts φ) := by
  cases s with
  | returnStmt value span => cases value <;> rfl
  | _ => rfl

theorem handedTo?_aligned (target : SwitchTarget) (s : Stmt) :
    handedTo? (aligned target s) = handedTo? s := by
  fun_cases aligned target s <;> rfl

theorem alignAll_eq_nil {list : List Stmt} : alignAll list = [] ↔ list = [] := by
  fun_cases alignAll list <;> simp

theorem getLast?_cons_congr {s s' : Stmt} {list list' : List Stmt} (hs : handedTo? s = handedTo? s')
    (hnil : list = [] ↔ list' = [])
    (hlist : list.getLast?.bind handedTo? = list'.getLast?.bind handedTo?) :
    (s :: list).getLast?.bind handedTo? = (s' :: list').getLast?.bind handedTo? := by
  cases list with
  | nil =>
    obtain rfl := hnil.mp rfl
    exact hs
  | cons next rest =>
    obtain ⟨next', rest', rfl⟩ :=
      List.exists_cons_of_ne_nil (mt hnil.mpr (List.cons_ne_nil next rest))
    simpa only [List.getLast?_cons_cons] using hlist

theorem getLast?_alignAll (list : List Stmt) :
    (alignAll list).getLast?.bind handedTo? = list.getLast?.bind handedTo? := by
  fun_induction alignAll list with
  | case1 item next rest hfor ih =>
    refine getLast?_cons_congr rfl (by simp) (getLast?_cons_congr ?_ alignAll_eq_nil ih)
    exact handedTo?_aligned _ next
  | case2 item next rest hfor ih => exact getLast?_cons_congr rfl alignAll_eq_nil ih
  | case3 s rest hs ih =>
    refine getLast?_cons_congr ?_ alignAll_eq_nil ih
    cases valueTarget? s with
    | none => rfl
    | some target => exact handedTo?_aligned target s
  | case4 => rfl

theorem commonTarget?_assignsAlike (cases : List SwitchCase) :
    commonTarget? (cases.map (SwitchCase.mapParts (assignsAlike.change owner))) =
      (commonTarget? cases).map (SwitchTarget.mapParts (assignsAlike.change owner)) := by
  refine commonTarget?_mapParts keepsExprs_assignsAlike owner (fun list => ?_) cases
  rw [onStmts_assignsAlike, getLast?_alignAll, List.getLast?_map]
  cases list.getLast? with
  | none => rfl
  | some last => exact handedTo?_mapParts _ last

/-- Cases agree as before once what is in them has been changed to nothing new. -/
theorem agree_mapParts {cases : List SwitchCase} (h : Agree cases)
    (hbody : ∀ c ∈ cases, placeless.onStmts owner (assignsAlike.onStmts owner c.body) =
      placeless.onStmts owner c.body) :
    Agree (cases.map (SwitchCase.mapParts (assignsAlike.change owner))) := by
  intro hcommon
  rw [commonTarget?_assignsAlike, Option.isSome_map] at hcommon
  have hsame : ∀ c ∈ cases, (caseTarget? (c.mapParts (assignsAlike.change owner))).map erased =
      (caseTarget? c).map erased := by
    intro c hc
    rw [map_erased_caseTarget owner, map_erased_caseTarget owner, ← hbody c hc]
    rfl
  refine List.forall_mem_map.mpr fun a ha => List.forall_mem_map.mpr fun b hb => ?_
  rw [hsame a ha, hsame b hb]
  exact h hcommon a ha b hb

end

/-- Where all places agree, to assign to the first one changes nothing but places. -/
theorem placeless_assignsAlike {place : Place} {fragment : Fragment}
    (h : (Demand.ofSwitches fun found => Agree found.cases).Met place fragment)
    (owner : Option String) :
    placeless.onFragment owner (assignsAlike.onFragment owner fragment) =
      placeless.onFragment owner fragment := by
  induction h generalizing owner with
  | @expr place called e own _ ih =>
    simp only [Transform.onFragment, keepsExprs_assignsAlike.onExpr_eq, onExpr_placeless]
    rw [Transform.Chains.mapParts_expr fun part hpart => ih part hpart _]
  | @stmts place list own _ _ ih =>
    have hparts : ∀ s ∈ list, (s.mapParts (assignsAlike.change owner)).mapParts
        (placeless.change owner) = s.mapParts (placeless.change owner) :=
      fun s hs => Transform.Chains.mapParts_stmt fun part hpart => ih s hs part hpart _
    have hagree : ∀ s ∈ list.map (Stmt.mapParts (assignsAlike.change owner)),
        ∀ found ∈ s.switch?, Agree found.cases := by
      refine List.forall_mem_map.mpr fun s hs found hfound => ?_
      cases s with
      | switchStmt subject cases target span =>
        obtain rfl := Option.some.inj hfound
        -- What the bodies have become shows the same places up to what is said of them.
        refine agree_mapParts owner (own _ hs _ rfl) fun c hc => ?_
        have hpart : Part.body c.body ∈ (Stmt.switchStmt subject cases target span).parts :=
          List.mem_cons_of_mem _ (List.mem_append_right _ (List.mem_flatMap.mpr
            ⟨c, hc, List.mem_append_right _ (List.mem_singleton_self _)⟩))
        exact Fragment.stmts.inj (ih _ hs _ hpart owner)
      | _ => exact absurd hfound (Option.not_mem_none _)
    have haligned := alignAll_placeless owner hagree
    rw [List.map_map] at haligned
    have hsame := haligned.trans (List.map_congr_left hparts)
    simp only [Transform.onFragment]
    rw [onStmts_assignsAlike, onStmts_placeless, onStmts_placeless, hsame]

/-- Switches that have become values, turned back into statements: all cases of one assign to the
place of the first, or to the plain name of the variable that was joined with it.  Where the places
of each `switch` agree, that is the file as it was, but for places and what is said of names that
are assigned to. -/
theorem onFile_switchesToStatements (file : SourceFile)
    (hfile : ∀ found ∈ switches.ofFile file, found.target = none) :
    let back := switchesToStatements.onFile (switchesToExpressions.onFile file)
    back = assignsAlike.onFile file ∧
      ((∀ found ∈ switches.ofFile file, Agree found.cases) →
        placeless.onFile back = placeless.onFile file) := by
  intro back
  have hback : back = assignsAlike.onFile file := by
    obtain ⟨hdeclarations, hstatements⟩ := metFile_ofSwitches_iff.mpr hfile
    exact Transform.onFile_onFile_eq (fun _ => rfl)
      (fun s hs => onFragment_switchesToStatements (hdeclarations s hs) none)
      (onFragment_switchesToStatements hstatements none)
  refine ⟨hback, fun hagree => ?_⟩
  obtain ⟨hdeclarations, hstatements⟩ := metFile_ofSwitches_iff.mpr hagree
  rw [hback]
  exact Transform.onFile_onFile_eq (fun _ => rfl)
    (fun s hs => placeless_assignsAlike (hdeclarations s hs) none)
    (placeless_assignsAlike hstatements none)

/-- Two cases that assign to entries of a dictionary under interpolated strings, which all read
alike. -/
def cachedFile : SourceFile where
  path := "cached"
  statements :=
    [.switchStmt (.name "kind" false false {})
      [⟨[.literal (.int 1) {}], [.assign (entry "a") (.literal (.int 1) {}) none], none⟩,
        ⟨[], [.assign (entry "b") (.literal (.int 2) {}) none], none⟩] none none]
where
  entry (n : String) : Expr :=
    .subscript (.name "cache" false false {})
      (.interpolation [.value (.name n false false {})] {}) {}

def nameSurvey : Survey String where
  expr
    | .name n _ _ _ => [n]
    | _ => []

/-- A variable that is given one of two values comes back as it was.  Of two entries of a dictionary
only the first does. -/
theorem onFile_switchesToStatements_cachedFile :
    (∀ found ∈ switches.ofFile gradedFile, found.target = none ∧ Agree found.cases) ∧
      placeless.onFile (switchesToStatements.onFile (switchesToExpressions.onFile gradedFile)) =
        placeless.onFile gradedFile ∧
      (∀ found ∈ switches.ofFile cachedFile, found.target = none) ∧
      switchesToStatements.onFile (switchesToExpressions.onFile cachedFile) =
        assignsAlike.onFile cachedFile ∧
      nameSurvey.ofFile cachedFile = ["kind", "cache", "a", "cache", "b"] ∧
      nameSurvey.ofFile (assignsAlike.onFile cachedFile) =
        ["kind", "cache", "a", "cache", "a"] := by
  have hgraded : ∀ found ∈ switches.ofFile gradedFile, found.target = none ∧ Agree found.cases := by
    intro found hfound
    obtain rfl := List.mem_singleton.mp hfound
    refine ⟨rfl, fun _ a ha b hb => ?_⟩
    simp only [List.mem_cons, List.not_mem_nil, or_false] at ha hb
    rcases ha with rfl | rfl <;> rcases hb with rfl | rfl <;> rfl
  have hcached : ∀ found ∈ switches.ofFile cachedFile, found.target = none := by
    intro found hfound
    obtain rfl := List.mem_singleton.mp hfound
    rfl
  exact ⟨hgraded,
    (onFile_switchesToStatements gradedFile fun found h => (hgraded found h).1).2
      fun found h => (hgraded found h).2,
    hcached, (onFile_switchesToStatements cachedFile hcached).1, by decide, by decide⟩

end Pass

end Ferry
