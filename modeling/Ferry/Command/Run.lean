/-
  Ferry.Command.Run

  Running a command line. The status is 0 if all went well, 1 if the run failed, and 2 if the
  command line was not understood.
-/
import Ferry.Command.Help
import Ferry.Project.Report

namespace Ferry.Command

open Project

/-- A level of indentation has fewer blanks than this. -/
def indentLimit : Nat := Nat.pow 2 63

/-- How the files given to the command are treated. -/
def TranslateArguments.settings (arguments : TranslateArguments) : Settings where
  disabled := arguments.disabled
  layout :=
    { lineLimit := arguments.lineLimit
      indentation := String.ofList (List.replicate arguments.indent ' ') }
  isSequential := arguments.isSequential
  isStrict := arguments.isStrict
  deniesWarnings := arguments.deniesWarnings
  refresh := arguments.refresh

def displayConfig (isVerbose : Bool) (suppressed : List Code) : DisplayConfig :=
  let config : DisplayConfig := if isVerbose then .verbose else {}
  { config with suppressed }

section

variable {m : Type → Type} [Monad m] (fs : FileSystem m)

/-- Writes the report on a run, if there is to be one. -/
def writeReport (path : Option String) (result : RunResult) (destinations : List (Option String)) :
    m (Except ProjectError Unit) :=
  match path with
  | none => return .ok ()
  | some path => do
    let text := (result.report destinations).pretty
    return (← fs.write path text).mapError (.reportNotWritten path)

/-- Translates files and writes what they come to. -/
def runTranslate (arguments : TranslateArguments) (isVerbose : Bool) :
    ExceptT ProjectError m Unit := do
  if indentLimit ≤ arguments.indent then throw (.tooWide arguments.indent)
  let settings := arguments.settings
  let inputs ← ExceptT.mk do
    return (← collectInputs fs arguments.inputs).mapError ProjectError.file
  let result ← ExceptT.mk (translate fs settings inputs)
  ExceptT.lift (showResult fs (displayConfig isVerbose arguments.suppressed) result)
  let destinations ← ExceptT.mk (pure (planDestinations arguments.outDir result.outcomes))
  ExceptT.mk (writeOutputs fs ((result.outcomes.map Outcome.output).zip destinations))
  ExceptT.mk (writeReport fs arguments.report result destinations)
  ExceptT.mk (pure (result.check settings))

def runPasses (disabled : List String) : ExceptT ProjectError m Unit :=
  match unknownPass? disabled with
  | some id => throw (.unknownPass id)
  | none => ExceptT.lift (fs.print (Pipeline.order disabled))

def CommandLine.run (line : CommandLine) : ExceptT ProjectError m Unit :=
  match line.action with
  | .translate arguments => runTranslate fs arguments (0 < line.verbosity)
  | .passes disabled => runPasses fs disabled

def statusOf : ProjectError → Nat
  | .outOfBounds _ | .tooWide _ => 101
  | _ => 1

/-- Runs the words of a command line and gives the status. -/
def run (words : List String) : m Nat := do
  match Request.read? words with
  | none =>
    fs.printError (Topic.program.page.text)
    return 2
  | some .version =>
    fs.print versionText
    return 0
  | some (.help topic) =>
    fs.print topic.page.text
    return 0
  | some (.run line) =>
    match ← (line.run fs).run with
    | .ok () => return 0
    | .error e =>
      fs.printError (alarm "error:" ++ " " ++ e.message ++ "\n")
      return statusOf e

end

end Ferry.Command
