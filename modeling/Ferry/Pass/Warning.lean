/-
  Ferry.Pass.Warning

  What does not mean quite the same in the target language: values that can be changed through a
  shared copy, and subjects of a `switch` that are evaluated again for every case.
-/
import Ferry.Program.Switch
import Ferry.Traverse.Survey

namespace Ferry.Pass

def isMutableStored (item : Variable) : Bool :=
  !item.isLet && !item.isStatic && !item.isComputed

/-- Stored properties of structures that can be changed. -/
def mutableProperties : Survey Diagnostic where
  enters _ := false
  after
    | .structDecl head members _ =>
      members.filterMap fun
        | .declare item =>
          if isMutableStored item then
            some ((Diagnostic.ofCode .mutableValueType ("struct `" ++ head.name ++
              "` has mutable stored property `" ++ item.name ++ "`")).placed item.span)
          else none
        | _ => none
    | _ => []

/-- Whether some case binds a variable to a member of the subject. -/
def bindsFromSubject (subject : Expr) (cases : List SwitchCase) : Bool :=
  cases.any fun c => c.body.any fun
    | .declare item => item.initializer.any (Switch.readsMember subject)
    | _ => false

/-- Whether an expression is a call that is not known to be pure, parentheses aside. -/
def isImpureCall (e : Expr) : Bool :=
  match e.unparenthesized with
  | .call _ _ _ isPure _ => !isPure
  | _ => false

/-- Subjects whose evaluation may be seen more than once. -/
def impureSubjects : Survey Diagnostic where
  after
    | .switchStmt subject cases _ span =>
      if isImpureCall subject && (Switch.usesTests subject cases || bindsFromSubject subject cases)
      then
        [(Diagnostic.ofCode .impureSubject ("switch subject `" ++ subject.text ++
          "` is evaluated once per case")).placed span]
      else []
    | _ => []

end Ferry.Pass
