/-
  Ferry.Pass.Pipeline

  The passes in their order, and running them. Collecting passes come first and learn from every
  file; changing passes then read what was learned. A run is the list of its stages: which pass was
  run, the file after it and what it reported.
-/
import Ferry.Pass.Call
import Ferry.Pass.ClosureParameter
import Ferry.Pass.Collect
import Ferry.Pass.Defer
import Ferry.Pass.EnumCase
import Ferry.Pass.Guard
import Ferry.Pass.Library
import Ferry.Pass.Member
import Ferry.Pass.Parentheses
import Ferry.Pass.SwitchValue
import Ferry.Pass.Warning
import Ferry.Text.Quoted

namespace Ferry

inductive Phase where
  | collection
  | transformation
deriving DecidableEq

def Phase.text : Phase → String
  | collection => "Collection"
  | transformation => "Transformation"

/-- The passes, in the order in which they are run. -/
inductive PassId where
  | cleanInheritances
  | recordEnums
  | recordProtocols
  | recordFunctions
  | recordTypes
  | removeParentheses
  | defersToFinally
  | removeExtensions
  | optionalInitsToFactories
  | staticMembersToCompanion
  | anonymousParameters
  | doubleNegativesInGuards
  | returnIfNil
  | capitalizeEnumCases
  | isChecksForPayloadCases
  | switchesToExpressions
  | removeBreaksInSwitches
  | callLabelsToParameterNames
  | pureCalls
  | impureSwitchSubjects
  | mutableValueTypes
  | standardLibrary
deriving DecidableEq

namespace PassId

def collecting : List PassId :=
  [cleanInheritances, recordEnums, recordProtocols, recordFunctions, recordTypes]

def transforming : List PassId :=
  [removeParentheses, defersToFinally, removeExtensions, optionalInitsToFactories,
   staticMembersToCompanion, anonymousParameters, doubleNegativesInGuards, returnIfNil,
   capitalizeEnumCases, isChecksForPayloadCases, switchesToExpressions, removeBreaksInSwitches,
   callLabelsToParameterNames, pureCalls, impureSwitchSubjects, mutableValueTypes, standardLibrary]

def all : List PassId := collecting ++ transforming

/-- The name by which a pass is switched off. -/
def id : PassId → String
  | cleanInheritances => "clean_inheritances"
  | recordEnums => "record_enums"
  | recordProtocols => "record_protocols"
  | recordFunctions => "record_functions"
  | recordTypes => "record_types"
  | removeParentheses => "remove_parentheses"
  | defersToFinally => "defers_to_finally"
  | removeExtensions => "remove_extensions"
  | optionalInitsToFactories => "optional_inits_to_factories"
  | staticMembersToCompanion => "static_members_to_companion"
  | anonymousParameters => "anonymous_parameters"
  | doubleNegativesInGuards => "double_negatives_in_guards"
  | returnIfNil => "return_if_nil"
  | capitalizeEnumCases => "capitalize_enum_cases"
  | isChecksForPayloadCases => "is_checks_for_payload_cases"
  | switchesToExpressions => "switches_to_expressions"
  | removeBreaksInSwitches => "remove_breaks_in_switches"
  | callLabelsToParameterNames => "call_labels_to_parameter_names"
  | pureCalls => "pure_calls"
  | impureSwitchSubjects => "impure_switch_subjects"
  | mutableValueTypes => "mutable_value_types"
  | standardLibrary => "standard_library"

def ofId? (text : String) : Option PassId :=
  all.find? (·.id == text)

def title : PassId → String
  | cleanInheritances => "Clean Inheritances"
  | recordEnums => "Record Enums"
  | recordProtocols => "Record Protocols"
  | recordFunctions => "Record Functions"
  | recordTypes => "Record Types"
  | removeParentheses => "Remove Parentheses"
  | defersToFinally => "Defers To Finally"
  | removeExtensions => "Remove Extensions"
  | optionalInitsToFactories => "Optional Initializers To Factories"
  | staticMembersToCompanion => "Static Members To Companion"
  | anonymousParameters => "Anonymous Parameters"
  | doubleNegativesInGuards => "Double Negatives In Guards"
  | returnIfNil => "Return If Nil"
  | capitalizeEnumCases => "Capitalize Enum Cases"
  | isChecksForPayloadCases => "Is Checks For Payload Cases"
  | switchesToExpressions => "Switches To Expressions"
  | removeBreaksInSwitches => "Remove Breaks In Switches"
  | callLabelsToParameterNames => "Call Labels To Parameter Names"
  | pureCalls => "Pure Calls"
  | impureSwitchSubjects => "Impure Switch Subjects"
  | mutableValueTypes => "Mutable Value Types"
  | standardLibrary => "Standard Library"

/-- What a pass does, for people. -/
def description : PassId → String
  | cleanInheritances => "Strips conformances that only exist in the source language"
  | recordEnums => "Classifies every enum as payload-free or has-payload"
  | recordProtocols => "Records protocol names"
  | recordFunctions => "Maps function signatures to internal parameter names and purity"
  | recordTypes => "Records struct and class names"
  | removeParentheses => "Drops parentheses the target syntax makes redundant"
  | defersToFinally => "Wraps the statements after a defer in try/finally"
  | removeExtensions => "Turns extension members into top-level members with a receiver"
  | optionalInitsToFactories =>
    "Rewrites failable initializers into static factories returning early"
  | staticMembersToCompanion => "Hoists static members into one companion per type"
  | anonymousParameters => "Renames $0-style closure parameters"
  | doubleNegativesInGuards =>
    "Collapses the double negation produced by lowering a negated guard"
  | returnIfNil => "Rewrites `if (x == nil) \x7b return \x7d` into a nil-coalescing return"
  | capitalizeEnumCases => "Tags enum case references with their emitted casing"
  | isChecksForPayloadCases => "Turns switch cases over has-payload enum cases into subtype checks"
  | switchesToExpressions => "Turns switches whose cases all return or assign into one expression"
  | removeBreaksInSwitches => "Drops trailing breaks and emptied default cases"
  | callLabelsToParameterNames => "Replaces argument labels with the callee's parameter names"
  | pureCalls => "Marks calls to functions declared pure"
  | impureSwitchSubjects => "Warns about pattern switches that re-evaluate an impure subject"
  | mutableValueTypes => "Warns about mutable stored properties in value types"
  | standardLibrary => "Translates known standard-library members and warns about the rest"

def phase (pass : PassId) : Phase :=
  if collecting.contains pass then .collection else .transformation

def dependencies : PassId → List PassId
  | recordEnums => [cleanInheritances]
  | staticMembersToCompanion => [optionalInitsToFactories]
  | returnIfNil => [doubleNegativesInGuards]
  | isChecksForPayloadCases => [capitalizeEnumCases]
  | removeBreaksInSwitches => [switchesToExpressions]
  | impureSwitchSubjects => [pureCalls, isChecksForPayloadCases]
  | _ => []

/-- What a collecting pass makes of a file, and the facts it learns from it. -/
def collect (pass : PassId) (file : SourceFile) : SourceFile × List Fact :=
  match pass with
  | cleanInheritances => (Pass.cleanInheritances.onFile file, [])
  | recordEnums => (Pass.classifyEnums.onFile file, Pass.enumSurvey.ofFile file)
  | recordProtocols => (file, Pass.protocolSurvey.ofFile file)
  | recordFunctions => (file, Pass.functionsOfFile file)
  | recordTypes => (file, Pass.typeSurvey.ofFile file)
  | _ => (file, [])

/-- How a pass changes a file, given what is known about the program. -/
def transform (registry : Registry) (pass : PassId) : Transform :=
  match pass with
  | removeParentheses => Pass.removeParentheses
  | defersToFinally => Pass.defersToFinally
  | removeExtensions => Pass.removeExtensions
  | optionalInitsToFactories => Pass.optionalInitsToFactories
  | staticMembersToCompanion => Pass.staticMembersToCompanion
  | anonymousParameters => Pass.anonymousParameters
  | doubleNegativesInGuards => Pass.doubleNegativesInGuards
  | returnIfNil => Pass.returnIfNil
  | capitalizeEnumCases => Pass.capitalizeEnumCases registry
  | isChecksForPayloadCases => Pass.isChecksForPayloadCases
  | switchesToExpressions => Pass.switchesToExpressions
  | removeBreaksInSwitches => Pass.removeBreaksInSwitches
  | callLabelsToParameterNames => Pass.callLabelsToParameterNames registry
  | pureCalls => Pass.pureCalls registry
  | standardLibrary => Pass.standardLibrary
  | _ => {}

/-- What a pass reports about the file it is given. -/
def report (pass : PassId) (file : SourceFile) : List Diagnostic :=
  match pass with
  | impureSwitchSubjects => Pass.impureSubjects.ofFile file
  | mutableValueTypes => Pass.mutableProperties.ofFile file
  | standardLibrary => Pass.unknownReferences.ofFile file
  | _ => []

end PassId

/-! ## Runs -/

structure Stage where
  pass : PassId
  file : SourceFile
  reported : List Diagnostic

namespace Stage

def lastFile (start : SourceFile) (stages : List Stage) : SourceFile :=
  (stages.getLast?.map file).getD start

def diagnostics (stages : List Stage) : List Diagnostic :=
  stages.flatMap reported

end Stage

namespace Pipeline

def enabled (disabled : List String) (passes : List PassId) : List PassId :=
  passes.filter fun pass => !disabled.contains pass.id

/-- The stages of collecting passes, and the facts they learn. -/
def collectFrom : List PassId → SourceFile → List Stage × List Fact
  | [], _ => ([], [])
  | pass :: rest, file =>
    let (after, facts) := pass.collect file
    let (stages, more) := collectFrom rest after
    (⟨pass, after, []⟩ :: stages, facts ++ more)

/-- Learns from a file with all collecting passes that are not switched off. -/
def collect (disabled : List String) (file : SourceFile) : List Stage × List Fact :=
  collectFrom (enabled disabled PassId.collecting) file

def transformFrom (registry : Registry) : List PassId → SourceFile → List Stage
  | [], _ => []
  | pass :: rest, file =>
    let after := (pass.transform registry).onFile file
    ⟨pass, after, pass.report file⟩ :: transformFrom registry rest after

/-- Changes a file with all changing passes that are not switched off. -/
def transform (disabled : List String) (registry : Registry) (file : SourceFile) : List Stage :=
  transformFrom registry (enabled disabled PassId.transforming) file

/-- A complete run over a file that is a program of its own. -/
structure Run where
  stages : List Stage
  registry : Registry
  file : SourceFile

/-- Learns from a file and then changes it. -/
def runSingle (disabled : List String) (file : SourceFile) : Run :=
  let (collected, facts) := collect disabled file
  let registry := Registry.empty.recordAll facts
  let middle := Stage.lastFile file collected
  let changed := transform disabled registry middle
  { stages := collected ++ changed, registry, file := Stage.lastFile middle changed }

def Run.diagnostics (run : Run) : List Diagnostic :=
  Stage.diagnostics run.stages

/-! ## Description and statistics -/

/-- A number in at least two columns. -/
def twoColumns (n : Nat) : String :=
  if n < 10 then " " ++ toString n else toString n

def describe (disabled : List String) (index : Nat) (pass : PassId) : String :=
  twoColumns (index + 1) ++ ". " ++ pass.title ++ " (" ++ pass.id ++ ", " ++
    pass.phase.text ++ ")" ++ (if disabled.contains pass.id then " [disabled]" else "") ++ "\n" ++
    if pass.dependencies.isEmpty then ""
    else "    Dependencies: [" ++
      ", ".intercalate (pass.dependencies.map fun d => Text.quoted d.id) ++ "]\n"

/-- The passes in their order, for people. -/
def order (disabled : List String) : String :=
  "Rewrite Pass Execution Order:\n" ++ String.ofList (List.replicate 50 '=') ++ "\n" ++
    String.join (PassId.all.mapIdx (describe disabled))

/-- How often a pass was run and what it reported. -/
structure Tally where
  runs : Nat := 0
  errors : Nat := 0
  warnings : Nat := 0

def tally (stages : List Stage) (pass : PassId) : Tally :=
  let own := stages.filter (·.pass == pass)
  let reported := Stage.diagnostics own
  { runs := own.length
    errors := (reported.filter Diagnostic.isError).length
    warnings := (reported.filter (!·.isError)).length }

end Pipeline

end Ferry
