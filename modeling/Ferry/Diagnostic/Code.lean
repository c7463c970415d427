/-
  Ferry.Diagnostic.Code

  The closed set of diagnostic codes, with the severity, family, title and advice that go with each.
  A code is written as a letter for its severity and a number of four digits, and read back from
  that text, in either case, or from the number alone.
-/
import Ferry.Text.Blank

namespace Ferry

/-- How serious a diagnostic is: a warning keeps the output, an error leaves a marker in it. -/
inductive Severity where
  | warning
  | error
deriving DecidableEq, Repr

namespace Severity

def text : Severity → String
  | warning => "warning"
  | error => "error"

/-- Whether a diagnostic of this severity passes a threshold; errors pass every one. -/
def reaches : Severity → (threshold : Severity) → Bool
  | _, warning => true
  | severity, error => severity == error

end Severity

inductive Code where
  | unrecognizedSyntax
  | unsupportedPattern
  | malformedOperators
  | unresolvedMember
  | argumentMismatch
  | unlabeledPayload
  | shuffleMismatch
  | danglingBinding
  | queryFailed
  | unreadableInput
  | mutableValueType
  | customOperator
  | unknownLibrary
  | impureSubject
deriving DecidableEq, Repr

namespace Code

/-- Every code, in numerical order. -/
def all : List Code :=
  [unrecognizedSyntax, unsupportedPattern, malformedOperators, unresolvedMember,
   argumentMismatch, unlabeledPayload, shuffleMismatch, danglingBinding,
   queryFailed, unreadableInput,
   mutableValueType, customOperator, unknownLibrary, impureSubject]

/-- The number of a code; its thousands are the code's family. -/
def number : Code → Nat
  | unrecognizedSyntax => 1001
  | unsupportedPattern => 1002
  | malformedOperators => 1003
  | unresolvedMember => 1004
  | argumentMismatch => 2001
  | unlabeledPayload => 2002
  | shuffleMismatch => 2003
  | danglingBinding => 2004
  | queryFailed => 3001
  | unreadableInput => 3002
  | mutableValueType => 4001
  | customOperator => 4002
  | unknownLibrary => 4003
  | impureSubject => 4004

def isWarning (code : Code) : Bool :=
  code.number / 1000 == 4

def severity (code : Code) : Severity :=
  if code.isWarning then .warning else .error

/-- The code as it is written: `E2001`, `W4003`. -/
def text (code : Code) : String :=
  (if code.isWarning then "W" else "E") ++ toString code.number

def family (code : Code) : String :=
  match code.number / 1000 with
  | 1 => "StructuralMismatch"
  | 2 => "UnresolvableBinding"
  | 3 => "UpstreamFailure"
  | _ => "SemanticRisk"

def title : Code → String
  | unrecognizedSyntax => "unrecognized syntax"
  | unsupportedPattern => "unsupported pattern"
  | malformedOperators => "malformed operator sequence"
  | unresolvedMember => "unresolved implicit member"
  | argumentMismatch => "argument mismatch"
  | unlabeledPayload => "unlabeled payload binding"
  | shuffleMismatch => "tuple shuffle mismatch"
  | danglingBinding => "dangling binding"
  | queryFailed => "upstream query failed"
  | unreadableInput => "unreadable input"
  | mutableValueType => "mutable value type"
  | customOperator => "custom operator"
  | unknownLibrary => "untranslated standard library"
  | impureSubject => "impure switch subject"

/-- What to do about it, where there is something to do. -/
def suggestion : Code → Option String
  | unrecognizedSyntax =>
    some "Rewrite the construct using a supported form, or add a literal directive."
  | unsupportedPattern => some "Split the pattern into explicit comparisons."
  | malformedOperators => none
  | unresolvedMember => some "Spell out the type before the member (`Type.member`)."
  | argumentMismatch => some "Pass every argument with the label the declaration expects."
  | unlabeledPayload => some "Label the associated values of the enum case."
  | shuffleMismatch => none
  | danglingBinding => some "Declare each variable in its own statement."
  | queryFailed => some "Rebuild the index and run the translation again."
  | unreadableInput => none
  | mutableValueType =>
    some ("Value types are copied on assignment; the target language copies references. " ++
      "Prefer `let` properties.")
  | customOperator => some "Check the translated operator's precedence and associativity by hand."
  | unknownLibrary => some "Translate the reference by hand or add a literal directive."
  | impureSubject => some "Store the subject in a local variable before the switch."

/-- Reads `E2001`, `w4001` or a bare `4001`, with white space around it. -/
def ofText? (text : String) : Option Code :=
  let wanted := (Text.trimmed text).map Char.toUpper
  all.find? fun code => code.text == wanted || toString code.number == wanted

end Code

end Ferry
