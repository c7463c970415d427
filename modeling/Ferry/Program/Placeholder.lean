/-
  Ferry.Program.Placeholder

  Error nodes of a program tree: what could not be understood, in the order of the file.
-/
import Ferry.Traverse.Survey

namespace Ferry

/-- The diagnostics held by error nodes. -/
def placeholderSurvey : Survey Diagnostic where
  expr
    | .error diagnostic _ => [diagnostic]
    | _ => []
  before
    | .errorStmt diagnostic _ => [diagnostic]
    | _ => []
  paired := true

def SourceFile.placeholders (file : SourceFile) : List Diagnostic :=
  placeholderSurvey.ofFile file

end Ferry
