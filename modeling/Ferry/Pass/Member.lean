/-
  Ferry.Pass.Member

  Members of types: those of extensions become members with a receiver, failable initializers become
  factories, and static members move into one companion.
-/
import Ferry.Program.View
import Ferry.Traverse.Survey
import Ferry.Traverse.Transform

namespace Ferry.Pass

/-! ## Extensions -/

/-- A member with the extended type as its receiver, unless it has one. -/
def withReceiver (extended : String) : Stmt → Stmt
  | .function head parameters body span =>
    .function { head with receiver := head.receiver <|> some extended } parameters body span
  | .declare item => .declare { item with receiver := item.receiver <|> some extended }
  | s => s

def spreadExtension : Stmt → List Stmt
  | .extensionDecl extended _ members _ => members.map (withReceiver extended)
  | s => [s]

def removeExtensions : Transform where
  stmt _ s := spreadExtension s

/-! ## Failable initializers -/

def isSelf (e : Expr) : Bool :=
  e.referencedName? == some "self"

/-- Assignments to a property of `self`, also in closures. -/
def propertyAssignments : Survey Unit where
  before
    | .assign lhs _ _ =>
      match lhs.unparenthesized with
      | .member base _ _ _ _ => if isSelf base then [()] else []
      | _ => []
    | _ => []
  paired := true

def isSelfInit : Expr → Bool
  | .member base n _ _ _ => n == "init" && isSelf base
  | _ => false

/-- Returns what is assigned to `self` or what another initializer makes. -/
def returnSelf (owner : String) : Stmt → Stmt
  | .assign lhs rhs span => if isSelf lhs then .returnStmt (some rhs) span else .assign lhs rhs span
  | .expression (.call callee arguments hasTrailing isPure info) span =>
    if isSelfInit callee then
      .returnStmt (some (.call (.typeName owner { span := callee.span }) arguments
        hasTrailing isPure info)) span
    else .expression (.call callee arguments hasTrailing isPure info) span
  | s => s

/-- Returns the made value everywhere but in closures. -/
def returningSelf (owner : String) : Transform where
  enters _ := false
  stmt _ s := [returnSelf owner s]

/-- Turns a failable initializer of `owner` into a factory, unless it assigns to a property. -/
def toFactory (owner : Option String) : Stmt → Stmt
  | .function head parameters (some body) span =>
    match owner, head.kind with
    | some owner, .initializer true =>
      if (propertyAssignments.ofStmts body).isEmpty then
        .function
          { head with
            name := "invoke", kind := .function, isStatic := true, returns := some (owner ++ "?") }
          parameters (some ((returningSelf owner).onStmts none body)) span
      else .function head parameters (some body) span
    | _, _ => .function head parameters (some body) span
  | s => s

def optionalInitsToFactories : Transform where
  stmt owner s := [toFactory owner s]

/-! ## Static members -/

def isCompanion : Stmt → Bool
  | .companion .. => true
  | _ => false

def extendCompanion (statics : List Stmt) : List Stmt → List Stmt
  | [] => []
  | .companion members span :: rest => .companion (members ++ statics) span :: rest
  | s :: rest => s :: extendCompanion statics rest

/-- Moves static members into the companion, which is made where there is none. -/
def hoistStatics (members : List Stmt) : List Stmt :=
  let statics := members.filter Stmt.isStatic
  let rest := members.filter (!·.isStatic)
  if statics.isEmpty then rest
  else if rest.any isCompanion then extendCompanion statics rest
  else .companion statics none :: rest

def hoistStmt : Stmt → Stmt
  | .classDecl head isFinal members span => .classDecl head isFinal (hoistStatics members) span
  | .structDecl head members span => .structDecl head (hoistStatics members) span
  | .enumDecl head kind elements members span =>
    .enumDecl head kind elements (hoistStatics members) span
  | s => s

def staticMembersToCompanion : Transform where
  stmt _ s := [hoistStmt s]

end Ferry.Pass
