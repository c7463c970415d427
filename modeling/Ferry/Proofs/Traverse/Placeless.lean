/-
  Ferry.Proofs.Traverse.Placeless

  Trees without the places of their nodes in the source.  A name that is assigned to keeps nothing
  but itself: no parentheses, no type.
-/
import Ferry.Proofs.Traverse.Demand

namespace Ferry

def Info.unplaced (info : Info) : Info := { info with span := none }

def Expr.unplaced : Expr → Expr
  | .literal value info => .literal value info.unplaced
  | .array elements info => .array elements info.unplaced
  | .dictionary keys values info => .dictionary keys values info.unplaced
  | .name n isLibrary isImplicit info => .name n isLibrary isImplicit info.unplaced
  | .member base n isLibrary style info => .member base n isLibrary style info.unplaced
  | .call callee arguments hasTrailing isPure info =>
    .call callee arguments hasTrailing isPure info.unplaced
  | .closure parameters body info => .closure parameters body info.unplaced
  | .subscript base index info => .subscript base index info.unplaced
  | .prefixOp op operand info => .prefixOp op operand info.unplaced
  | .postfixOp op operand info => .postfixOp op operand info.unplaced
  | .binary lhs op rhs info => .binary lhs op rhs info.unplaced
  | .ternary condition yes no info => .ternary condition yes no info.unplaced
  | .typeName n info => .typeName n info.unplaced
  | .tuple elements info => .tuple elements info.unplaced
  | .shuffle slots info => .shuffle slots info.unplaced
  | .paren inner info => .paren inner info.unplaced
  | .optional inner info => .optional inner info.unplaced
  | .force inner info => .force inner info.unplaced
  | .interpolation segments info => .interpolation segments info.unplaced
  | .code text info => .code text info.unplaced
  | .error diagnostic _ => .error diagnostic none

def Variable.unplaced (item : Variable) : Variable := { item with span := none }

def Condition.unplaced : Condition → Condition
  | .test e => .test e
  | .binding item => .binding item.unplaced

def SwitchTarget.unplaced : SwitchTarget → SwitchTarget
  | .declared item => .declared item.unplaced
  | target => target

def Expr.nameAlone (e : Expr) : Expr :=
  match e.referencedName? with
  | some n => .name n false false {}
  | none => e

/-- The statement without its places, and with the name alone where one is assigned to. -/
def Stmt.unplaced : Stmt → Stmt
  | .importDecl module _ => .importDecl module none
  | .classDecl head isFinal members _ => .classDecl head isFinal members none
  | .structDecl head members _ => .structDecl head members none
  | .protocolDecl head members _ => .protocolDecl head members none
  | .enumDecl head kind elements members _ =>
    .enumDecl head kind (elements.map fun element => { element with span := none }) members none
  | .extensionDecl extended inherits members _ => .extensionDecl extended inherits members none
  | .companion members _ => .companion members none
  | .function head parameters body _ => .function head parameters body none
  | .declare item => .declare item.unplaced
  | .ifStmt conditions body otherwise isGuard _ =>
    .ifStmt (conditions.map Condition.unplaced) body otherwise isGuard none
  | .switchStmt subject cases target _ =>
    .switchStmt subject (cases.map fun c => { c with span := none })
      (target.map SwitchTarget.unplaced) none
  | .forEach item collection body _ => .forEach item collection body none
  | .whileLoop condition body _ => .whileLoop condition body none
  | .doBlock body cleanup _ => .doBlock body cleanup none
  | .catchBlock item body _ => .catchBlock (item.map Variable.unplaced) body none
  | .deferBlock body _ => .deferBlock body none
  | .throwStmt value _ => .throwStmt value none
  | .returnStmt value _ => .returnStmt value none
  | .breakStmt _ => .breakStmt none
  | .continueStmt _ => .continueStmt none
  | .assign lhs rhs _ => .assign lhs.nameAlone rhs none
  | .expression value _ => .expression value none
  | .comment text _ => .comment text none
  | .errorStmt diagnostic _ => .errorStmt diagnostic none

/-- Takes all places out of a tree, and what is said of names that are assigned to but the names. -/
def placeless : Transform where
  expr _ e := e.unplaced
  stmt _ s := [s.unplaced]

theorem onStmts_placeless (owner : Option String) (list : List Stmt) :
    placeless.onStmts owner list =
      (list.map (Stmt.mapParts (placeless.change owner))).map Stmt.unplaced := by
  rw [Transform.onStmts_eq, List.map_map, List.map_eq_flatMap]
  simp only [Transform.onStmt_eq]
  rfl

theorem onExpr_placeless (owner : Option String) (called : Bool) (e : Expr) :
    placeless.onExpr owner called e = (e.mapParts (placeless.change owner)).unplaced :=
  Transform.onExpr_eq_mapParts ..

theorem onExpr_placeless_congr (owner : Option String) (called : Bool) (e : Expr) :
    placeless.onExpr owner called e = placeless.onExpr none called e :=
  (Fragment.expr.inj (Transform.onFragment_congr (t := placeless) (fun _ _ _ => rfl) {}
    (.expr called e) owner none)).2

theorem referencedName?_placeless (owner : Option String) (called : Bool) (e : Expr) :
    (placeless.onExpr owner called e).referencedName? = e.referencedName? := by
  rw [Expr.referencedName?, Expr.referencedName?]
  fun_induction Expr.unparenthesized e generalizing called with
  | case1 inner info ih =>
    rw [onExpr_placeless]
    exact ih false
  | case2 e he =>
    rw [onExpr_placeless]
    cases e with
    | paren inner info => exact absurd rfl (he inner info)
    | _ => rfl

end Ferry
