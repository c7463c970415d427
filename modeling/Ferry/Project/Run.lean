/-
  Ferry.Project.Run

  Translating the files of a project. All files are read first, then all of them are learned from,
  and only then is each one changed and written, so that every file knows about all others. A file
  that cannot be read is given up and leaves the others alone.

  Where the outputs go is planned before anything is written: if two files claim one path, nothing
  is.
-/
import Ferry.Pass.Pipeline
import Ferry.Program.Placeholder
import Ferry.Project.Input
import Ferry.Source.Adapt
import Ferry.Target.Output

namespace Ferry.Project

structure Settings where
  /-- Passes that are switched off. -/
  disabled : List String := []
  layout : Target.Layout := {}
  /-- Whether a file that reaches out of bounds keeps those after it from being read. -/
  isSequential : Bool := false
  isStrict : Bool := false
  deniesWarnings : Bool := false
  /-- The command that refreshes the side tables. -/
  refresh : Option String := none

inductive ProjectError where
  | noInputs
  | unknownPass (id : String)
  | outOfBounds (path : String)
  | tooWide (indent : Nat)
  | file (error : FileError)
  | noDestination (error : Target.OutputError)
  | sharedDestination (destination first second : String)
  | directoryNotCreated (path : String) (fault : FileFault)
  | outputNotWritten (path : String) (fault : FileFault)
  | reportNotWritten (path : String) (fault : FileFault)
  | failed (files errors warnings : Nat)
deriving DecidableEq

def ProjectError.message : ProjectError → String
  | noInputs => "no input files"
  | unknownPass id => s!"unknown pass '{id}' (see `tarn passes`)"
  | outOfBounds path => path ++ ": a node reaches beyond the end of all offsets"
  | tooWide indent => s!"{indent} blanks are too many for a level of indentation"
  | file error => error.message
  | noDestination error => error.message
  | sharedDestination destination first second =>
    s!"{first} and {second} both write to {destination}"
  | directoryNotCreated path fault =>
    s!"cannot create output directory {path}: {fault.message}"
  | outputNotWritten path fault => s!"cannot write {path}: {fault.message}"
  | reportNotWritten path fault => path ++ ": " ++ fault.message
  | failed files errors warnings =>
    s!"translation failed: {files} file(s) skipped, {errors} error(s), {warnings} warning(s)"

/-- A file that made it to the end. -/
structure Outcome where
  input : InputFile
  output : Target.Output
  collector : Collector

/-- What a run comes to, the files in the order of the inputs. -/
structure RunResult where
  outcomes : List Outcome
  failures : List FileError

namespace RunResult

def errorCount (result : RunResult) : Nat :=
  (result.outcomes.map fun outcome => outcome.collector.errors).foldr (· + ·) 0

def warningCount (result : RunResult) : Nat :=
  (result.outcomes.map fun outcome => outcome.collector.warnings).foldr (· + ·) 0

/-- The verdict on a run. -/
def check (settings : Settings) (result : RunResult) : Except ProjectError Unit :=
  let errors := result.errorCount
  let warnings := result.warningCount
  if !result.failures.isEmpty || (settings.isStrict && 0 < errors) ||
      (settings.deniesWarnings && 0 < warnings) then
    .error (.failed result.failures.length errors warnings)
  else .ok ()

end RunResult

/-! ## Reading -/

/-- A file as a program tree, before it is changed. -/
structure Adapted where
  input : InputFile
  file : SourceFile
  diagnostics : List Diagnostic
  isOutOfBounds : Bool

/-- What the files of a run share while they are read. -/
structure Shared where
  gate : Index.Gate := {}
  origins : Source.OriginCache := {}

section

variable {m : Type → Type} [Monad m] (fs : FileSystem m)

def adaptInput (index : Index.TableSource m) (shared : Shared) (input : InputFile) :
    m (Except FileError Adapted × Shared) := do
  match ← readTree fs input with
  | .error e => return (.error e, shared)
  | .ok root =>
    match ← readDirectives fs input with
    | .error e => return (.error e, shared)
    | .ok directives =>
      let (loaded, gate) ← Index.load index input.source shared.gate
      match loaded with
      | .error cause => return (.error (.index input.source cause), { shared with gate })
      | .ok (types, symbols) =>
        let found := Source.adapt input.source root { types, symbols, directives }
          (some shared.origins)
        let adapted : Adapted :=
          { input, file := found.file, diagnostics := found.warnings,
            isOutOfBounds := found.isOutOfBounds }
        return (.ok adapted, { gate, origins := found.origins.getD shared.origins })

def adaptInputs (index : Index.TableSource m) (isSequential : Bool) :
    Shared → List InputFile → m (List (Except FileError Adapted))
  | _, [] => return []
  | shared, input :: rest => do
    let (adapted, shared) ← adaptInput fs index shared input
    if isSequential && adapted.toOption.any Adapted.isOutOfBounds then return [adapted]
    else return adapted :: (← adaptInputs index isSequential shared rest)

end

def successes {ε α : Type} (results : List (Except ε α)) : List α :=
  results.filterMap Except.toOption

def failuresOf {ε α : Type} (results : List (Except ε α)) : List ε :=
  results.filterMap fun
    | .error e => some e
    | .ok _ => none

/-! ## Translating -/

def learn (disabled : List String) (adapted : Adapted) : Adapted × List Fact :=
  let (stages, facts) := Pipeline.collect disabled adapted.file
  ({ adapted with
     file := Stage.lastFile adapted.file stages
     diagnostics := adapted.diagnostics ++ Stage.diagnostics stages }, facts)

/-- Changes and writes one file. -/
def finish (settings : Settings) (registry : Registry) (adapted : Adapted) : Outcome :=
  let stages := Pipeline.transform settings.disabled registry adapted.file
  let file := Stage.lastFile adapted.file stages
  { input := adapted.input
    output := Target.Output.ofFile registry settings.layout file
    collector := Collector.empty.extend
      (adapted.diagnostics ++ Stage.diagnostics stages ++ file.placeholders) }

/-- Translates files that have been read, all of them known to each other. -/
def translateAll (settings : Settings) (files : List Adapted) : List Outcome :=
  let learned := files.map (learn settings.disabled)
  let registry := Registry.empty.recordAll (learned.flatMap Prod.snd)
  learned.map fun (adapted, _) => finish settings registry adapted

/-- The first pass to be switched off that does not exist. -/
def unknownPass? (disabled : List String) : Option String :=
  disabled.find? fun id => (PassId.ofId? id).isNone

def translate {m : Type → Type} [Monad m] (fs : FileSystem m) (settings : Settings)
    (inputs : List InputFile) : m (Except ProjectError RunResult) := do
  if inputs.isEmpty then return .error .noInputs
  else
    match unknownPass? settings.disabled with
    | some id => return .error (.unknownPass id)
    | none =>
      let results ← adaptInputs fs (fileIndex fs settings.refresh) settings.isSequential {} inputs
      let files := successes results
      match files.find? Adapted.isOutOfBounds with
      | some adapted => return .error (.outOfBounds adapted.input.source)
      | none =>
        return .ok { outcomes := translateAll settings files, failures := failuresOf results }

/-! ## Destinations -/

/-- Plans where outputs go, given the paths that are claimed already and by whom. -/
def planFrom (directory : Option String) (claimed : List (String × String)) :
    List Target.Output → Except ProjectError (List (Option String))
  | [] => .ok []
  | output :: rest =>
    match output.destination directory with
    | .error e => .error (.noDestination e)
    | .ok none => do return none :: (← planFrom directory claimed rest)
    | .ok (some path) =>
      match claimed.find? fun (other, _) => Path.same other path with
      | some (_, first) => .error (.sharedDestination path first output.source)
      | none => do
        return some path :: (← planFrom directory ((path, output.source) :: claimed) rest)

/-- Plans where outputs go; no two may go to one path. -/
def planDestinations (directory : Option String) (outcomes : List Outcome) :
    Except ProjectError (List (Option String)) :=
  planFrom directory [] (outcomes.map Outcome.output)

section

variable {m : Type → Type} [Monad m] (fs : FileSystem m)

/-- The directory a file lies in, unless that is the working directory. -/
def parent? (path : String) : Option String :=
  if (Path.components path).length ≤ 1 then none
  else
    let parent := Path.parentText path
    if parent.isEmpty then none else some parent

/-- Writes one output to a path, making the directories above it. -/
def writeOutput (path text : String) : m (Except ProjectError Unit) := do
  let made ← match parent? path with
    | some parent => do
      pure ((← fs.createDirectories parent).mapError (.directoryNotCreated parent))
    | none => pure (.ok ())
  match made with
  | .error e => return .error e
  | .ok () => return (← fs.write path text).mapError (.outputNotWritten path)

/-- Writes outputs to their destinations, those without one to standard output. -/
def writeOutputs : List (Target.Output × Option String) → m (Except ProjectError Unit)
  | [] => return .ok ()
  | (output, none) :: rest => do
    fs.print output.text
    writeOutputs rest
  | (output, some path) :: rest => do
    match ← writeOutput fs path output.text with
    | .error e => return .error e
    | .ok () => writeOutputs rest

end

end Ferry.Project
