/-
  Ferry.Pass.SwitchValue

  A `switch` whose cases all hand a value to the same place becomes one that yields a value. A
  declaration right before one that assigns to it is joined with it. What is then left of breaks and
  empty defaults is dropped.
-/
import Ferry.Program.Text
import Ferry.Traverse.Transform

namespace Ferry.Pass

/-- Where the last statement of a case hands its value. -/
def caseTarget? (c : SwitchCase) : Option SwitchTarget :=
  match c.body.getLast? with
  | some (.returnStmt (some _) _) => some .returned
  | some (.assign lhs _ _) => some (.assigned lhs)
  | _ => none

/-- Whether two cases hand their values to the same place; assigned expressions are the same when
they read alike. -/
def sameTarget : SwitchTarget → SwitchTarget → Bool
  | .returned, .returned => true
  | .assigned a, .assigned b => a.text == b.text
  | _, _ => false

/-- The statement that hands over a value, as the value. -/
def yielded : Stmt → Stmt
  | .returnStmt (some e) span => .expression e span
  | .assign _ rhs span => .expression rhs span
  | s => s

def yieldLast (c : SwitchCase) : SwitchCase :=
  { c with body := c.body.dropLast ++ (c.body.getLast?.map yielded).toList }

/-- Turns a `switch` into one that yields a value, when all cases hand theirs to the same place. -/
def toValue : Stmt → Stmt
  | .switchStmt subject (first :: rest) none span =>
    match caseTarget? first with
    | some target =>
      if (first :: rest).all fun c => (caseTarget? c).any (sameTarget · target) then
        .switchStmt subject ((first :: rest).map yieldLast) (some target) span
      else .switchStmt subject (first :: rest) none span
    | none => .switchStmt subject (first :: rest) none span
  | s => s

/-- Whether a `switch` that assigns to a name can be joined with a declaration. -/
def declares (name : String) (item : Variable) : Bool :=
  item.name == name && item.initializer.isNone && !item.isComputed && !item.isStatic

/-- The name that a `switch` yields its value to. -/
def assignedName? : Stmt → Option String
  | .switchStmt _ _ (some (.assigned lhs)) _ => lhs.referencedName?
  | _ => none

def asInitializer (item : Variable) : Stmt → Stmt
  | .switchStmt subject cases _ span => .switchStmt subject cases (some (.declared item)) span
  | s => s

/-- Whether a declaration and the statement after it are joined. -/
def joins (item : Variable) (next : Stmt) : Bool :=
  (assignedName? next).any fun name => declares name item

def joinDeclarations : List Stmt → List Stmt
  | .declare item :: next :: rest =>
    if joins item next then asInitializer item next :: joinDeclarations rest
    else .declare item :: joinDeclarations (next :: rest)
  | s :: rest => s :: joinDeclarations rest
  | [] => []

def switchesToExpressions : Transform where
  stmt _ s := [toValue s]
  block := joinDeclarations

/-! ## Breaks -/

def dropBreak (body : List Stmt) : List Stmt :=
  match body.getLast? with
  | some (.breakStmt _) => body.dropLast
  | _ => body

/-- Whether a case does nothing that no case at all would not do. -/
def isIdle (c : SwitchCase) : Bool :=
  c.patterns.isEmpty && c.body.isEmpty

def dropBreaks : Stmt → Stmt
  | .switchStmt subject cases target span =>
    let cases := cases.map fun c => { c with body := dropBreak c.body }
    .switchStmt subject (cases.filter (!isIdle ·)) target span
  | s => s

def removeBreaksInSwitches : Transform where
  stmt _ s := [dropBreaks s]

end Ferry.Pass
