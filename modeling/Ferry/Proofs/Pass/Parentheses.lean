/-
  Ferry.Proofs.Pass.Parentheses

  Removing parentheses removes nothing else, and all that are redundant.  Deleting every pair of
  parentheses (`SourceFile.withoutParens`) makes the same of a file before and after, for it makes
  the same of what one node becomes (`onExpr_unwrapExpr`, `mapParts_unwrapStmt`).  A node that the
  pass leaves alone has no redundant pair at it, and after the pass it would leave every node alone.
-/
import Ferry.Proofs.Pass.Settled
import Ferry.Proofs.Traverse.Reading
import Ferry.Proofs.Traverse.Reference

namespace Ferry

/-! ## Deleting all parentheses -/

def dropParen : Expr → Expr
  | .paren inner _ => inner
  | e => e

/-- The file with every pair of parentheses deleted. -/
def SourceFile.withoutParens (file : SourceFile) : SourceFile :=
  file.mapNodes dropParen

namespace Pass

def deleteParentheses : Transform :=
  rewriting dropParen

theorem onExpr_deleteParentheses (owner : Option String) (called : Bool) (e : Expr) :
    deleteParentheses.onExpr owner called e =
      dropParen (e.mapParts (deleteParentheses.change owner)) :=
  Transform.onExpr_eq_mapParts ..

theorem onStmts_deleteParentheses (owner : Option String) (list : List Stmt) :
    deleteParentheses.onStmts owner list =
      list.map (Stmt.mapParts (deleteParentheses.change owner)) :=
  onStmts_rewriting_eq_map ..

theorem value_unparenthesized (owner : Option String) (e : Expr) :
    (deleteParentheses.change owner).value e.unparenthesized =
      (deleteParentheses.change owner).value e := by
  fun_induction Expr.unparenthesized e with
  | case1 inner info ih => exact ih
  | case2 => rfl

theorem onExpr_unwrapExpr (owner : Option String) (called : Bool) (e : Expr) :
    deleteParentheses.onExpr owner called (unwrapExpr e) = deleteParentheses.onExpr
    owner called e := by
  cases e with
  | paren inner info =>
    rw [unwrapExpr]
    split
    next =>
      -- `called` does not matter: whether an expression is called is not looked at.
      calc deleteParentheses.onExpr owner called inner
          = deleteParentheses.onExpr owner false inner := by
            rw [onExpr_deleteParentheses, onExpr_deleteParentheses]
        _ = deleteParentheses.onExpr owner called (.paren inner info) := rfl
    next => rfl
  | tuple elements info =>
    rw [onExpr_deleteParentheses, onExpr_deleteParentheses]
    simp only [unwrapExpr, Expr.mapParts, List.map_map, Function.comp_def, value_unparenthesized]
  | shuffle slots info =>
    rw [onExpr_deleteParentheses, onExpr_deleteParentheses]
    simp only [unwrapExpr, Expr.mapParts, List.map_map, Function.comp_def, Slot.mapValues_mapValues,
      value_unparenthesized]
  | _ => rfl

theorem mapParts_unwrapStmt (owner : Option String) (s : Stmt) :
    (unwrapStmt s).mapParts (deleteParentheses.change owner) =
      s.mapParts (deleteParentheses.change owner) := by
  have hcondition : ∀ condition : Condition,
      (unwrapCondition condition).mapParts (deleteParentheses.change owner) =
        condition.mapParts (deleteParentheses.change owner) := by
    intro condition
    cases condition with
    | test e => exact congrArg Condition.test (value_unparenthesized owner e)
    | binding item => rfl
  cases s with
  | ifStmt conditions body otherwise isGuard span =>
    simp only [unwrapStmt, Stmt.mapParts, List.map_map, Function.comp_def, hcondition]
  | returnStmt value span =>
    cases value <;> simp [unwrapStmt, Stmt.mapParts, value_unparenthesized]
  | whileLoop | switchStmt => simp only [unwrapStmt, Stmt.mapParts, value_unparenthesized]
  | _ => rfl

/-- Deleting all parentheses after some have been removed is deleting them at once. -/
theorem onFragment_deleteParentheses (place : Place) (fragment : Fragment) :
    deleteParentheses.onFragment place.owner (removeParentheses.onFragment place.owner fragment) =
      deleteParentheses.onFragment place.owner fragment := by
  induction place, fragment using Fragment.induction with
  | expr place called e ih =>
    refine congrArg (Fragment.expr called) ?_
    -- Both walks go down to the parts; the node itself is unwrapped or not, then deleted if it is
    -- left.
    rw [show removeParentheses.onExpr place.owner called e =
        unwrapExpr (e.mapParts (removeParentheses.change place.owner)) from
      Transform.onExpr_eq_mapParts .., onExpr_unwrapExpr, onExpr_deleteParentheses,
      onExpr_deleteParentheses]
    refine congrArg dropParen (Transform.Chains.mapParts_expr fun part hpart => ?_)
    rw [← Place.owner_step]
    exact ih part hpart
  | stmts place list ih =>
    have hstmts : removeParentheses.onStmts place.owner list =
        list.map fun s => unwrapStmt (s.mapParts (removeParentheses.change place.owner)) := by
      rw [Transform.onStmts_eq, List.map_eq_flatMap]
      simp only [Transform.onStmt_eq]
      rfl
    refine congrArg Fragment.stmts ?_
    rw [hstmts, onStmts_deleteParentheses, onStmts_deleteParentheses, List.map_map]
    refine List.map_congr_left fun s hs => ?_
    rw [Function.comp_apply, mapParts_unwrapStmt]
    refine Transform.Chains.mapParts_stmt fun part hpart => ?_
    rw [← Place.owner_step]
    exact ih s hs part hpart

/-! ## Redundant parentheses -/

def isParen : Expr → Bool
  | .paren .. => true
  | _ => false

/-- The expressions around which parentheses say nothing, for the expression they stand in says
where they end. -/
def delimited : Expr → List Expr
  | .tuple elements _ => elements.map Argument.value
  | .shuffle slots _ => slots.flatMap Slot.values
  | _ => []

def delimitedIn : Stmt → List Expr
  | .ifStmt conditions _ _ _ _ =>
    conditions.filterMap fun
      | .test e => some e
      | .binding _ => none
  | .whileLoop condition _ _ => [condition]
  | .switchStmt subject _ _ _ => [subject]
  | .returnStmt value _ => value.toList
  | _ => []

/-- Parentheses that are redundant: around what binds tightly anyway, other parentheses included,
and around what is delimited. -/
def redundantParens : Survey Expr where
  expr e := (match e with
    | .paren inner _ => if isAtomic inner then [e] else []
    | _ => []) ++ (delimited e).filter isParen
  before s := (delimitedIn s).filter isParen

theorem isParen_unparenthesized (e : Expr) : isParen e.unparenthesized = false := by
  fun_induction Expr.unparenthesized e with
  | case1 inner info ih => exact ih
  | case2 e he =>
    cases e with
    | paren inner info => exact absurd rfl (he inner info)
    | _ => rfl

theorem filter_isParen_map (es : List Expr) :
    (es.map Expr.unparenthesized).filter isParen = [] := by
  rw [List.filter_eq_nil_iff, List.forall_mem_map]
  exact fun e _ => Bool.eq_false_iff.mp (isParen_unparenthesized e)

theorem delimited_unwrapExpr {e : Expr} (h : isParen e = false) :
    delimited (unwrapExpr e) = (delimited e).map Expr.unparenthesized := by
  cases e with
  | paren inner info => exact absurd h Bool.true_eq_false.mp
  | tuple elements info => simp [unwrapExpr, delimited]
  | shuffle slots info => simp [unwrapExpr, delimited, List.flatMap_map, List.map_flatMap]
  | _ => rfl

theorem delimitedIn_unwrapStmt (s : Stmt) :
    delimitedIn (unwrapStmt s) = (delimitedIn s).map Expr.unparenthesized := by
  cases s with
  | ifStmt conditions body otherwise isGuard span =>
    simp only [unwrapStmt, delimitedIn, List.filterMap_map, List.map_filterMap]
    refine List.filterMap_congr fun condition _ => ?_
    cases condition <;> rfl
  | returnStmt value span => cases value <;> rfl
  | _ => rfl

theorem expr_redundantParens {e : Expr} (h : unwrapExpr e = e) : redundantParens.expr e = [] := by
  cases hparen : isParen e with
  | true =>
    cases e with
    | paren inner info =>
      -- Nothing is what stands inside its own parentheses.
      have hne : inner ≠ .paren inner info := fun heq => by
        have hsize := congrArg sizeOf heq
        rw [Expr.paren.sizeOf_spec] at hsize
        omega
      have hatomic : ¬ isAtomic inner = true := fun hatomic => hne ((if_pos hatomic).symm.trans h)
      simp [redundantParens, delimited, hatomic]
    | _ => exact absurd hparen Bool.false_ne_true
  | false =>
    have hdelimited : (delimited e).filter isParen = [] := by
      rw [← h, delimited_unwrapExpr hparen]
      exact filter_isParen_map _
    cases e with
    | paren inner info => exact absurd hparen Bool.true_eq_false.mp
    | _ => exact hdelimited

theorem before_redundantParens {s : Stmt} (h : unwrapStmt s = s) :
    redundantParens.before s = [] := by
  show (delimitedIn s).filter isParen = []
  rw [← h, delimitedIn_unwrapStmt]
  exact filter_isParen_map _

/-- Removing parentheses makes a file that differs from the one before in parentheses only, and
leaves none that are redundant. -/
theorem withoutParens_removeParentheses (file : SourceFile) :
    (removeParentheses.onFile file).withoutParens = file.withoutParens ∧
      redundantParens.ofFile (removeParentheses.onFile file) = [] := by
  constructor
  · have hdelete : ∀ file, deleteParentheses.onFile file = file.withoutParens := onFile_rewriting _
    rw [← hdelete, ← hdelete]
    exact Transform.onFile_onFile_eq (fun _ => rfl)
      (fun s _ => onFragment_deleteParentheses {} (.stmts [s]))
      (onFragment_deleteParentheses {} (.stmts file.statements))
  · exact Survey.ofFile_eq_nil expr_redundantParens (fun h => ⟨before_redundantParens h, rfl⟩)
      (carries_unwrapped.metFile (Demand.metFile_trivial file))

end Pass

end Ferry
