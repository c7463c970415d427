/-
  Ferry.Program.Dump

  Indented dumps of program trees, one node a line and two blanks a level.
-/
import Ferry.Program.Text

namespace Ferry

def dumpLine (depth : Nat) (text : String) : String :=
  String.ofList (List.replicate (2 * depth) ' ') ++ text ++ "\n"

def Variable.summary (item : Variable) : String :=
  (if item.isLet then "let " else "var ") ++ item.name ++
    (match item.ty with
      | some ty => ": " ++ ty
      | none => "") ++
    (match item.initializer with
      | some value => " = " ++ value.text
      | none => "") ++
    (if item.isComputed then " \x7b get \x7d" else "")

/-- What a dump writes for the kind of an enumeration. -/
def enumKindSummary : Option EnumKind → String
  | none => "None"
  | some .payloadFree => "Some(PayloadFree)"
  | some .hasPayload => "Some(HasPayload)"

def EnumElement.summary (element : EnumElement) : String :=
  "case " ++ element.name ++ "(" ++
    commaSeparated (element.payload.map fun field => labeled field.label field.ty) ++ ")"

def functionSummary (head : FunctionHead) (parameters : List Parameter) : String :=
  "func " ++ head.name ++ "(" ++
    commaSeparated (parameters.map fun p => p.label.getD "_" ++ " " ++ p.name ++ ": " ++ p.ty) ++
    ") -> " ++ head.returns.getD "()" ++ (if head.isStatic then " static" else "")

def Condition.summary : Condition → String
  | test value => value.text
  | binding item => item.summary

def switchTargetSummary : Option SwitchTarget → String
  | none => ""
  | some .returned => " => return"
  | some (.assigned lhs) => " => " ++ lhs.text ++ " ="
  | some (.declared item) => " => " ++ item.summary

mutual

def Stmt.dump (depth : Nat) : Stmt → String
  | .importDecl module _ => dumpLine depth ("import " ++ module)
  | .classDecl head _ members _ =>
    dumpLine depth ("class " ++ head.name ++ " : " ++ commaSeparated head.inherits) ++
      dumpAll (depth + 1) members
  | .structDecl head members _ =>
    dumpLine depth ("struct " ++ head.name ++ " : " ++ commaSeparated head.inherits) ++
      dumpAll (depth + 1) members
  | .protocolDecl head members _ =>
    dumpLine depth ("protocol " ++ head.name) ++ dumpAll (depth + 1) members
  | .enumDecl head kind elements members _ =>
    dumpLine depth ("enum " ++ head.name ++ " " ++ enumKindSummary kind) ++
      String.join (elements.map fun element => dumpLine (depth + 1) element.summary) ++
      dumpAll (depth + 1) members
  | .extensionDecl extended _ members _ =>
    dumpLine depth ("extension " ++ extended) ++ dumpAll (depth + 1) members
  | .companion members _ => dumpLine depth "companion" ++ dumpAll (depth + 1) members
  | .function head parameters none _ => dumpLine depth (functionSummary head parameters)
  | .function head parameters (some body) _ =>
    dumpLine depth (functionSummary head parameters) ++ dumpAll (depth + 1) body
  | .declare item => dumpLine depth item.summary
  | .ifStmt conditions body otherwise isGuard _ =>
    dumpLine depth ((if isGuard then "guard " else "if ") ++
        commaSeparated (conditions.map Condition.summary)) ++
      dumpAll (depth + 1) body ++
      (match otherwise with
        | some otherwise => dumpLine depth "else" ++ dumpAll (depth + 1) otherwise
        | none => "")
  | .switchStmt subject cases target _ =>
    dumpLine depth ("switch " ++ subject.text ++ switchTargetSummary target) ++
      dumpCases (depth + 1) cases
  | .forEach item collection body _ =>
    dumpLine depth ("for " ++ item.text ++ " in " ++ collection.text) ++ dumpAll (depth + 1) body
  | .whileLoop condition body _ =>
    dumpLine depth ("while " ++ condition.text) ++ dumpAll (depth + 1) body
  | .doBlock body cleanup _ =>
    dumpLine depth "do" ++ dumpAll (depth + 1) body ++
      (if cleanup.isEmpty then "" else dumpLine depth "finally" ++ dumpAll (depth + 1) cleanup)
  | .catchBlock item body _ =>
    (match item with
      | some item => dumpLine depth ("catch " ++ item.summary)
      | none => dumpLine depth "catch") ++ dumpAll (depth + 1) body
  | .deferBlock body _ => dumpLine depth "defer" ++ dumpAll (depth + 1) body
  | .throwStmt value _ => dumpLine depth ("throw " ++ value.text)
  | .returnStmt (some value) _ => dumpLine depth ("return " ++ value.text)
  | .returnStmt none _ => dumpLine depth "return"
  | .breakStmt _ => dumpLine depth "break"
  | .continueStmt _ => dumpLine depth "continue"
  | .assign lhs rhs _ => dumpLine depth (lhs.text ++ " = " ++ rhs.text)
  | .expression value _ => dumpLine depth value.text
  | .comment text _ => dumpLine depth ("// " ++ text)
  | .errorStmt diagnostic _ => dumpLine depth (errorText diagnostic)

def dumpAll (depth : Nat) : List Stmt → String
  | [] => ""
  | s :: rest => s.dump depth ++ dumpAll depth rest

def dumpCases (depth : Nat) : List SwitchCase → String
  | [] => ""
  | ⟨patterns, body, _⟩ :: rest =>
    dumpLine depth (if patterns.isEmpty then "default" else "case " ++
      commaSeparated (texts patterns)) ++ dumpAll (depth + 1) body ++ dumpCases depth rest

end

end Ferry
